import Kyron.Proofs.Scheduler.Rounds

/-!
# `Kyron.Proofs.Scheduler.Ticks`: how long a worker may work without a look around

`next_task_tick` counts the rounds of a worker. A round picks at most one task. Every 16th round
begins with a fetch from the global queue, and every 32nd with `process_work`. So the number of
picks since the last fetch is bounded by the rounds since the tick was divisible by 16
(`allowance`), up to one that depends on how far the round has come (`Stage`).

The tick is a `u64` and wraps. That does not matter, since 16 and 32 divide `2 ^ 64`.
-/

set_option autoImplicit false

namespace Kyron.Proofs.Scheduler

open Kyron.Lib
open Kyron.Scheduler
open Function
open AsyncWorkers

variable {n : Nat} {K O : Type}

/-! ### The allowance of a stage -/

/-- The most picks since the last look, at the tick `r` modulo the period. -/
def allowance (period r : Nat) : Stage → Nat
  | .begun => if r = 0 then period else r
  | .looked => r
  | .picked => r + 1
  | .stopped => period

variable {period : Nat} {l' : AsyncLoop n K} {stage : AsyncPc n K → Stage}

/-- No stage allows more picks than the period. -/
theorem allowance_le {r : Nat} (h : r < period) (stage : Stage) :
    allowance period r stage ≤ period := by
  cases stage with
  | begun =>
      change (if r = 0 then period else r) ≤ period
      split
      · exact le_rfl
      · exact h.le
  | looked => exact h.le
  | picked => exact h
  | stopped => exact le_rfl

/-- Within one tick the allowance does not get smaller. -/
theorem Stage.Leads.allowance_le {r : Nat} {stage stage' : Stage} (h : stage.Leads stage')
    (hr : r < period) : allowance period r stage ≤ allowance period r stage' := by
  rcases h with rfl | ⟨rfl, rfl⟩ | rfl
  · exact le_rfl
  · exact Nat.le_succ r
  · exact Scheduler.allowance_le hr stage

/-! ### What a step does to the numbers -/

variable {s s' : AsyncWorkers n K O} {w : Fin n} {l : AsyncLoop n K} {a : AsyncAction n K O}

/-- The number of picks of a worker stays within its allowance. It starts again with `event`. -/
def Allowed (period : Nat) (stage : AsyncPc n K → Stage) (l l' : AsyncLoop n K)
    (event : Option (Fin n)) (picks : List (Fin n × K)) (w : Fin n) : Prop :=
  ∀ count : Fin n → Nat, count w ≤ allowance period (l.tick.toNat % period) (stage l.pc) →
    TaskLog.since count event picks w ≤ allowance period (l'.tick.toNat % period) (stage l'.pc)

/-- Neither a pick nor a look, within one tick. -/
theorem allowed_quiet {l : AsyncLoop n K} {event : Option (Fin n)} (hperiod : 0 < period)
    (hevent : event ≠ some w) (htick : l'.tick = l.tick)
    (hleads : (stage l.pc).Leads (stage l'.pc)) :
    Allowed period stage l l' event [] w := by
  intro count hcount
  rw [TaskLog.since, if_neg hevent, htick]
  exact hcount.trans (hleads.allowance_le (Nat.mod_lt _ hperiod))

/-- After a look the number starts at zero. -/
theorem allowed_event {l : AsyncLoop n K} {picks : List (Fin n × K)} :
    Allowed period stage l l' (some w) picks w := by
  intro count _
  rw [TaskLog.since, if_pos rfl]
  exact Nat.zero_le _

/-- A round picks a task. -/
theorem allowed_pick {l : AsyncLoop n K} {task : K} (htick : l'.tick = l.tick)
    (hlooked : stage l.pc = .looked) (hpicked : stage l'.pc = .picked) :
    Allowed period stage l l' none [(w, task)] w := by
  intro count hcount
  rw [hlooked] at hcount
  rw [hpicked, htick, TaskLog.since, if_neg (Option.some_ne_none w).symm]
  have hone : [(w, task)].countP (fun pick => pick.1 = w) = 1 := by simp
  rw [hone]
  exact Nat.succ_le_succ hcount

/-- The step keeps the numbers of a worker within their allowances. -/
structure InTime (s s' : AsyncWorkers n K O) (a : AsyncAction n K O) (w : Fin n) : Prop where
  global : Allowed 16 globalStage (s.loop w) (s'.loop w) (s.fetches a) (s.picks a) w
  drivers : Allowed 32 driversStage (s.loop w) (s'.loop w) (s.runsDrivers a) (s.picks a) w

/-- The worker goes on in its round, without a pick or a look. -/
theorem inTime_goes (hfetches : s.fetches a = none) (hdrivers : s.runsDrivers a = none)
    (hpicks : s.picks a = []) (hloop : s'.loop = Function.update s.loop w l)
    (htick : l.tick = (s.loop w).tick)
    (hglobal : (globalStage (s.loop w).pc).Leads (globalStage l.pc))
    (hleads : (driversStage (s.loop w).pc).Leads (driversStage l.pc)) : InTime s s' a w := by
  have hself : s'.loop w = l := by rw [hloop, update_self]
  constructor
  · rw [hself, hfetches, hpicks]
    exact allowed_quiet (by decide) (Option.some_ne_none w).symm htick hglobal
  · rw [hself, hdrivers, hpicks]
    exact allowed_quiet (by decide) (Option.some_ne_none w).symm htick hleads

/-- A step that only moves the worker on keeps the numbers. -/
theorem MovesOn.inTime (h : MovesOn s s' a w) : InTime s s' a w := by
  obtain ⟨l, hloop, htick, -, hglobal, hdrivers⟩ := h.loop
  exact inTime_goes h.fetches h.runsDrivers h.picks hloop htick hglobal hdrivers

/-! ### The tick -/

/-- A tick that wraps does so at a multiple of the period. -/
theorem tick_succ_mod (hperiod : period ∣ 2 ^ 64) (tick : UInt64) :
    (tick + 1).toNat % period = (tick.toNat + 1) % period := by
  rw [UInt64.toNat_add, Nat.mod_mod_of_dvd _ hperiod]
  rfl

/-- The mask of `run` tests divisibility by 32. -/
theorem and_thirtyOne (tick : UInt64) : tick &&& 31 = 0 ↔ tick.toNat % 32 = 0 := by
  rw [← UInt64.toNat_inj, UInt64.toNat_and]
  change tick.toNat &&& (2 ^ 5 - 1) = 0 ↔ _
  rw [Nat.and_two_pow_sub_one_eq_mod]

/-- The test of `next_task_tick` on the tick as a number. -/
theorem mod_sixteen (tick : UInt64) : tick % 16 = 0 ↔ tick.toNat % 16 = 0 := by
  rw [← UInt64.toNat_inj, UInt64.toNat_mod]
  rfl

/-- A round that has picked its task is over, and the next one begins. -/
theorem allowed_round {l : AsyncLoop n K} (hpos : 0 < period) (hperiod : period ∣ 2 ^ 64)
    (htick : l'.tick = l.tick + 1) (hbefore : stage l.pc = .picked)
    (hafter : stage l'.pc = .begun ∨ stage l'.pc = .looked ∧ l'.tick.toNat % period ≠ 0) :
    Allowed period stage l l' none [] w := by
  intro count hcount
  rw [hbefore] at hcount
  change count w ≤ l.tick.toNat % period + 1 at hcount
  have hnext : l'.tick.toNat % period = (l.tick.toNat % period + 1) % period := by
    rw [htick, tick_succ_mod hperiod, Nat.mod_add_mod]
  -- either the tick comes round to zero, or its rest goes up by one
  have hround : l.tick.toNat % period + 1 = period ∧ l'.tick.toNat % period = 0 ∨
      l'.tick.toNat % period = l.tick.toNat % period + 1 := by
    rcases Nat.lt_or_eq_of_le (Nat.mod_lt l.tick.toNat hpos) with hlt | heq
    · exact Or.inr (hnext.trans (Nat.mod_eq_of_lt hlt))
    · refine Or.inl ⟨heq, ?_⟩
      rw [hnext]
      change (l.tick.toNat % period).succ % period = 0
      rw [heq, Nat.mod_self]
  change count w + 0 ≤ _
  rcases hafter with hbegun | ⟨hlooked, hdue⟩
  · -- at zero the look is due, and the whole period is allowed until then
    rw [hbegun]
    change count w ≤ if l'.tick.toNat % period = 0 then period else l'.tick.toNat % period
    split <;> omega
  · rw [hlooked]
    change count w ≤ l'.tick.toNat % period
    omega

/-- `run` begins a round: the tick goes up, and the drivers may be due. -/
theorem beginRound_inTime (hpc : (s.loop w).pc = .run) :
    InTime s (s.beginRound w) (.advance w) w := by
  have hself : (s.beginRound w).loop w = { s.loop w with
      pc := if ((s.loop w).tick + 1) &&& 31 = 0 then .within .timers else .next
      tick := (s.loop w).tick + 1 } := by
    simp only [beginRound, update_self]
  have hpicks : s.picks (.advance w) = [] := by simp only [picks, hpc]
  constructor
  · have hfetches : s.fetches (.advance w) = none := by simp only [fetches, hpc]
    rw [hfetches, hpicks, hself]
    refine allowed_round (by decide) (by decide) rfl (by rw [hpc]; rfl) (Or.inl ?_)
    change globalStage (if _ then _ else _) = _
    split <;> rfl
  · have hdrivers : s.runsDrivers (.advance w) = none := by
      simp only [runsDrivers, hpc]
    rw [hdrivers, hpicks, hself]
    refine allowed_round (by decide) (by decide) rfl (by rw [hpc]; rfl) ?_
    change driversStage (if _ then _ else _) = _ ∨ driversStage (if _ then _ else _) = _ ∧ _
    split
    · exact Or.inl rfl
    next hdue => exact Or.inr ⟨rfl, fun h => hdue ((and_thirtyOne _).mpr h)⟩

/-! ### The steps of a worker -/

/-- Either the fetch is due and made, or the round goes on to `pop`. -/
theorem next_inTime (hpc : (s.loop w).pc = .next) (hstep : s.advance w = some s') :
    InTime s s' (.advance w) w := by
  have hpicks : s.picks (.advance w) = [] := by simp only [picks, hpc]
  have hfetches : s.fetches (.advance w) = none := by simp only [fetches, hpc]
  have hdrivers : s.runsDrivers (.advance w) = none := by simp only [runsDrivers, hpc]
  simp only [advance, stepPick, hpc] at hstep
  split at hstep
  · cases hstep
    refine inTime_goes hfetches hdrivers hpicks rfl rfl ?_ ?_
    · rw [hpc]
      exact Or.inl rfl
    · rw [hpc]
      exact Or.inl rfl
  next hdue =>
    cases hstep
    have hself : (s.goto w (.pop .next false)).loop w = { s.loop w with pc := .pop .next false } :=
      update_self ..
    constructor
    · -- the fetch is not due in this round
      rw [hfetches, hpicks, hself]
      intro count hcount
      rw [hpc] at hcount
      change count w ≤ if _ then _ else _ at hcount
      rw [if_neg (fun h => hdue ((mod_sixteen _).mpr h))] at hcount
      exact hcount
    · rw [hdrivers, hpicks, hself]
      refine allowed_quiet (by decide) (Option.some_ne_none w).symm rfl ?_
      rw [hpc]
      exact Or.inl rfl

/-- A fetch, so the number of picks since a fetch starts again. -/
theorem fetchMove_inTime {site : PopSite} {possible : Nat}
    (hpc : (s.loop w).pc = .fetchMove site possible) (hstep : s.advance w = some s') :
    InTime s s' (.advance w) w := by
  have hfetches : s.fetches (.advance w) = some w := by simp only [fetches, hpc]
  have hpicks : s.picks (.advance w) = [] := by simp only [picks, hpc]
  have hdrivers : s.runsDrivers (.advance w) = none := by simp only [runsDrivers, hpc]
  constructor
  · rw [hfetches]
    exact allowed_event
  · rw [hdrivers, hpicks]
    simp only [advance, stepPick, hpc] at hstep
    repeat' split at hstep
    all_goals
      cases hstep
      simp only [goto, update_self]
      refine allowed_quiet (by decide) (Option.some_ne_none w).symm rfl ?_
      rw [show (loop _ w).pc = _ from hpc]
    · exact Or.inl rfl
    · exact Or.inl rfl
    · exact Or.inl rfl
    · exact Or.inr (Or.inl ⟨rfl, rfl⟩)

/-- The only step that picks a task, after both looks of the round. -/
theorem pop_inTime {site : PopSite} {notify : Bool} (hpc : (s.loop w).pc = .pop site notify)
    (hstep : s.advance w = some s') : InTime s s' (.advance w) w := by
  have hfetches : s.fetches (.advance w) = none := by simp only [fetches, hpc]
  have hdrivers : s.runsDrivers (.advance w) = none := by simp only [runsDrivers, hpc]
  have hpicks : s.picks (.advance w) = ((s.queue w).take 1).1.map fun task => (w, task) := by
    simp only [picks, hpc]
  simp only [advance, stepPick, hpc] at hstep
  split at hstep
  next task tasks queue htake =>
    cases hstep
    -- `pop` takes one task, so the number goes up by one
    have hone : ((s.queue w).take 1).1 = [task] := by
      have htasks : (s.queue w).items.take 1 = task :: tasks := congrArg Prod.fst htake
      change (s.queue w).items.take 1 = [task]
      cases hitems : (s.queue w).items with
      | nil =>
          rw [hitems] at htasks
          cases htasks
      | cons task' rest =>
          rw [hitems] at htasks
          cases htasks
          rfl
    rw [hone] at hpicks
    have hself : ((s.setQueue w queue).goto w (.execute notify)).loop w =
        { s.loop w with pc := .execute notify } := update_self ..
    constructor
    · rw [hfetches, hpicks, hself]
      exact allowed_pick rfl (by rw [hpc]; rfl) rfl
    · rw [hdrivers, hpicks, hself]
      exact allowed_pick rfl (by rw [hpc]; rfl) rfl
  next queue htake =>
    have hempty : s.picks (.advance w) = [] := by
      rw [hpicks, htake]
      rfl
    cases site
    all_goals
      cases hstep
      refine inTime_goes hfetches hdrivers hempty rfl rfl ?_ ?_
      all_goals rw [hpc]
    all_goals first
      | exact Or.inl rfl
      | exact Or.inr (Or.inl ⟨rfl, rfl⟩)

/-- `process_work` has run, so the number of picks since then starts again. -/
theorem timers_inTime (hpc : (s.loop w).pc = .within .timers) (hstep : s.advance w = some s') :
    InTime s s' (.advance w) w := by
  simp only [advance, hpc] at hstep
  cases hstep
  constructor
  · have hfetches : s.fetches (.advance w) = none := by simp only [fetches, hpc]
    have hpicks : s.picks (.advance w) = [] := by simp only [picks, hpc]
    rw [hfetches, hpicks]
    simp only [leaveSite, goto, update_self]
    refine allowed_quiet (by decide) (Option.some_ne_none w).symm rfl ?_
    rw [hpc]
    exact Or.inl rfl
  · have hdrivers : s.runsDrivers (.advance w) = some w := by
      simp only [runsDrivers, hpc]
    rw [hdrivers]
    exact allowed_event

/-- Only five places of the loop matter. The others are `MovesOn`. -/
theorem advance_inTime (hstep : s.advance w = some s') : InTime s s' (.advance w) w := by
  cases hpc : (s.loop w).pc with
  | run =>
      simp only [advance, hpc] at hstep
      cases hstep
      exact beginRound_inTime hpc
  | next => exact next_inTime hpc hstep
  | fetchMove site possible => exact fetchMove_inTime hpc hstep
  | pop site notify => exact pop_inTime hpc hstep
  | within site =>
      cases site with
      | timers => exact timers_inTime hpc hstep
      | _ => exact (advance_movesOn (by rw [hpc]; rfl) hstep).inTime
  | push site task spilled | publish tasks todo stolen =>
      simp only [advance, stepSpawn, stepSearch, hpc]
        at hstep
      cases hstep
      refine inTime_goes (by simp only [fetches, hpc])
        (by simp only [runsDrivers, hpc]) (by simp only [picks, hpc]) rfl
        rfl ?_ ?_
      all_goals
        rw [hpc]
        exact Or.inl rfl
  | _ => exact (advance_movesOn (by rw [hpc]; rfl) hstep).inTime

variable [DecidableEq O]

/-- A step of the worker itself. -/
theorem turn_inTime (ha : turnOf a = some w) (hstep : s.step a = some s') : InTime s s' a w := by
  cases a with
  | spawnOutside o task | unparkSome o | outside o => cases ha
  | advance w =>
      cases ha
      exact advance_inTime hstep
  | elapsed w =>
      cases ha
      exact (turn_movesOn (Or.inl rfl) hstep).inTime
  | returns w =>
      cases ha
      exact (turn_movesOn (Or.inr (Or.inl rfl)) hstep).inTime
  | search w start =>
      cases ha
      exact (turn_movesOn (Or.inr (Or.inr (Or.inl ⟨start, rfl⟩))) hstep).inTime
  | park w time =>
      cases ha
      exact (turn_movesOn (Or.inr (Or.inr (Or.inr ⟨time, rfl⟩))) hstep).inTime
  | spawn w task | overflow w | spill w k | steal w k =>
      cases ha
      simp only [step, steal] at hstep
      split at hstep
      next hpc =>
        repeat' split at hstep
        all_goals cases hstep
        all_goals
          refine inTime_goes rfl rfl rfl rfl rfl ?_ ?_
          all_goals rw [hpc]
        all_goals first
          | exact Or.inl rfl
          | exact Or.inr (Or.inr rfl)
      next => cases hstep

omit [DecidableEq O] in
theorem fetches_turn (h : s.fetches a = some w) : turnOf a = some w := by
  unfold fetches at h
  split at h
  · split at h
    · exact h
    · cases h
  · cases h

omit [DecidableEq O] in
theorem runsDrivers_turn (h : s.runsDrivers a = some w) : turnOf a = some w := by
  unfold runsDrivers at h
  split at h
  · split at h
    · exact h
    · cases h
  · cases h

omit [DecidableEq O] in
theorem picks_turn {pick : Fin n × K} (h : pick ∈ s.picks a) : turnOf a = some pick.1 := by
  unfold picks at h
  split at h
  · split at h
    · obtain ⟨task, -, rfl⟩ := List.mem_map.mp h
      rfl
    · cases h
  · cases h

omit [DecidableEq O] in
/-- A worker that does not move. -/
theorem other_inTime (ha : turnOf a ≠ some w) (hloop : s'.loop w = s.loop w) :
    InTime s s' a w := by
  have hnone : ((s.picks a).countP fun pick => pick.1 = w) = 0 := by
    rw [List.countP_eq_zero]
    intro pick hpick heq
    exact ha ((picks_turn hpick).trans (congrArg some (of_decide_eq_true heq)))
  constructor
  · intro count hcount
    rw [hloop, TaskLog.since, if_neg (fun h => ha (fetches_turn h)), hnone]
    exact hcount
  · intro count hcount
    rw [hloop, TaskLog.since, if_neg (fun h => ha (runsDrivers_turn h)), hnone]
    exact hcount

theorem step_inTime (hstep : s.step a = some s') (w : Fin n) : InTime s s' a w := by
  by_cases ha : turnOf a = some w
  · exact turn_inTime ha hstep
  · refine other_inTime ha ?_
    cases hturn : turnOf a with
    | none => rw [(step_outside hturn hstep).1]
    | some w' =>
        refine (step_turn hturn hstep).loop w (fun heq => ha ?_)
        rw [hturn, heq]

/-! ### Every run -/

/-- In every state of every run, a worker has picked at most 16 tasks since it has last fetched from
the global queue, and at most 32 since it has last run the timers. -/
theorem looks_around_in_time (localCapacity globalCapacity : Nat) {l : TaskLog n K O}
    (hrun : Reaches TaskLog.step anyStep (.start (.new localCapacity globalCapacity)) l)
    (w : Fin n) : l.sinceGlobal w ≤ 16 ∧ l.sinceDrivers w ≤ 32 := by
  obtain ⟨hglobal, hdrivers⟩ := hrun.invariant
    (I := fun l => l.sinceGlobal w ≤ allowance 16 ((l.workers.loop w).tick.toNat % 16)
        (globalStage (l.workers.loop w).pc) ∧
      l.sinceDrivers w ≤ allowance 32 ((l.workers.loop w).tick.toNat % 32)
        (driversStage (l.workers.loop w).pc))
    ⟨Nat.zero_le _, Nat.zero_le _⟩ (by
      rintro l a l' ⟨hglobal, hdrivers⟩ - hstep
      obtain ⟨workers, hworkers, rfl⟩ := Option.map_eq_some_iff.mp hstep
      have hinTime := step_inTime hworkers w
      exact ⟨hinTime.global _ hglobal, hinTime.drivers _ hdrivers⟩)
  exact ⟨hglobal.trans (allowance_le (Nat.mod_lt _ (by decide)) _),
    hdrivers.trans (allowance_le (Nat.mod_lt _ (by decide)) _)⟩

/-- A worker that has run its first task, which it found in the global queue. -/
theorem looks_around_in_time_first :
    ∃ l : TaskLog 1 Nat Unit,
      Reaches TaskLog.step anyStep (.start (.new 4 4)) l ∧ l.picked = [(0, 7)] ∧
        l.sinceGlobal 0 ≤ 16 ∧ l.sinceDrivers 0 ≤ 32 := by
  obtain ⟨l, hrun, hpicked⟩ : ∃ l : TaskLog 1 Nat Unit,
      Reaches TaskLog.step anyStep (.start (.new 4 4)) l ∧ l.picked = [(0, 7)] :=
    exists_reaches ([AsyncAction.spawnOutside () 7] ++ seek 0 ++ [AsyncAction.advance 0])
      (by decide +kernel)
  exact ⟨l, hrun, hpicked, looks_around_in_time 4 4 hrun 0⟩

end Kyron.Proofs.Scheduler
