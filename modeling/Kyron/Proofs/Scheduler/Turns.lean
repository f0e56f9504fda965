import Kyron.Proofs.Scheduler.AsyncWorkers

/-!
# `Kyron.Proofs.Scheduler.Turns`: what a step of a worker does to the list and the driver

Most steps of a worker move it from one place to the next and leave the list of parked workers
and the access to the IO driver alone. `ParkedTurn` and `IoTurn` list the steps that do not.
`step_turn` says that each step of a worker is one of these. A thread outside can only take an
index from the list (`step_outside`).

The places of a worker are grouped by what they say about it. From `isListed` places a worker
removes itself from the list before it is back in its loop. At `mayHoldIo` places it may hold the
access to the IO driver, and at `mustHoldIo` places it does. At `onCv` places it has chosen the
condition variable for this park.
-/

set_option autoImplicit false

namespace Kyron.Proofs.Scheduler

open Kyron.Scheduler
open AsyncWorkers

variable {n : Nat} {K O : Type}

/-! ### Places -/

/-- The worker has been pushed to the list and has not called `transition_from_parked` since. -/
def isListed : AsyncPc n K → Bool
  | .within site | .push site _ _ | .notify site | .pick site | .unpark site _ => site = .parkIo
  | .recheckGlobal | .recheckHead _ | .recheckTail _ _ _ | .unlist _ | .park | .preStage _
  | .check _ | .sleep _ | .blocked _ | .move | .panicked => true
  | _ => false

/-- A place between `try_get_access` and the drop of its guard. -/
def mayHoldIo : AsyncPc n K → Bool
  | .within site | .push site _ _ | .notify site | .pick site | .unpark site _ =>
      site = .driverIo ∨ site = .parkIo
  | .preStage .io | .blocked .io | .unlist .preStage | .unlist .leave | .rearm | .move
  | .panicked => true
  | _ => false

/-- A place that a worker reaches only with the access to the IO driver. -/
def mustHoldIo : AsyncPc n K → Bool
  | .within site | .push site _ _ | .notify site | .pick site | .unpark site _ =>
      site = .driverIo ∨ site = .parkIo
  | .preStage .io | .blocked .io => true
  | _ => false

/-- A place of `park_internal`, where the worker sleeps on its condition variable, or has decided
to. -/
def onCv : AsyncPc n K → Bool
  | .preStage .cv | .preStage .cvTimeout | .check _ | .sleep _ | .blocked .cv
  | .blocked .cvTimeout => true
  | _ => false

/-! ### Turns -/

/-- What a step of the worker `w` does to the list of parked workers. -/
inductive ParkedTurn (s s' : AsyncWorkers n K O) (w : Fin n) : Prop
  | keeps (listed : isListed (s.loop w).pc = true → isListed (s'.loop w).pc = true)
      (parked : s'.parked = s.parked)
  /-- `try_notify_siblings_worker_unconditional`. -/
  | picks (listed : isListed (s.loop w).pc = true → isListed (s'.loop w).pc = true)
      (parked : s'.parked = (s.pickTargets (some w)).2.parked)
  /-- The push of `transition_to_parked`. -/
  | lists (last : Bool) (before : (s.loop w).pc = .listed last)
      (listed : isListed (s'.loop w).pc = true) (parked : s'.parked = s.parked ++ [w])
  /-- `transition_from_parked`. -/
  | unlists (parked : s'.parked = (s.transitionFromParked w).parked)

/-- What a step of the worker `w` does to the access to the IO driver. -/
inductive IoTurn (s s' : AsyncWorkers n K O) (w : Fin n) : Prop
  | keeps (may : mayHoldIo (s.loop w).pc = true → mayHoldIo (s'.loop w).pc = true)
      (must : mustHoldIo (s'.loop w).pc = true → mustHoldIo (s.loop w).pc = true)
      (cv : onCv (s'.loop w).pc = true → onCv (s.loop w).pc = true)
      (io : s'.ioAccess = s.ioAccess)
  /-- `try_get_access` succeeds. -/
  | takes (free : s.ioAccess = none) (io : s'.ioAccess = some w)
      (may : mayHoldIo (s'.loop w).pc = true) (cv : onCv (s'.loop w).pc = false)
  /-- `try_get_access` of `park` fails. -/
  | misses (before : (s.loop w).pc = .park) (taken : s.ioAccess ≠ none)
      (must : mustHoldIo (s'.loop w).pc = false) (io : s'.ioAccess = s.ioAccess)
  /-- The guard is dropped, if the worker has one. -/
  | drops (must : mustHoldIo (s'.loop w).pc = false) (cv : onCv (s'.loop w).pc = false)
      (io : s'.ioAccess = if s.ioAccess = some w then none else s.ioAccess)

/-- A step of the worker `w`. -/
structure AsyncTurn (s s' : AsyncWorkers n K O) (w : Fin n) : Prop where
  loop : ∀ w', w' ≠ w → s'.loop w' = s.loop w'
  parked : ParkedTurn s s' w
  io : IoTurn s s' w

variable {s s' : AsyncWorkers n K O} {w : Fin n} {pc pc' : AsyncPc n K}

/-- The places of a step that leaves the list and the driver alone. -/
structure SamePlaces (pc pc' : AsyncPc n K) : Prop where
  listed : isListed pc = true → isListed pc' = true
  may : mayHoldIo pc = true → mayHoldIo pc' = true
  must : mustHoldIo pc' = true → mustHoldIo pc = true
  cv : onCv pc' = true → onCv pc = true

/-- A move of the worker that leaves the list and the driver alone. -/
theorem turn_of_same {l : AsyncLoop n K} (hpc : (s.loop w).pc = pc)
    (hloop : s'.loop = Function.update s.loop w l) (hparked : s'.parked = s.parked)
    (hio : s'.ioAccess = s.ioAccess) (h : SamePlaces pc l.pc) : AsyncTurn s s' w := by
  subst hpc
  have hself : (s'.loop w).pc = l.pc := by rw [hloop, Function.update_self]
  refine ⟨?_, .keeps ?_ hparked, .keeps ?_ ?_ ?_ hio⟩
  · intro w' hw
    rw [hloop, Function.update_of_ne hw]
  all_goals rw [hself]
  · exact h.listed
  · exact h.may
  · exact h.must
  · exact h.cv

/-- The worker moves and at most the list or the driver changes with it. -/
theorem turn_of {l : AsyncLoop n K} (hloop : s'.loop = Function.update s.loop w l)
    (hparked : (s'.loop w).pc = l.pc → ParkedTurn s s' w)
    (hio : (s'.loop w).pc = l.pc → IoTurn s s' w) : AsyncTurn s s' w := by
  have hself : (s'.loop w).pc = l.pc := by rw [hloop, Function.update_self]
  refine ⟨?_, hparked hself, hio hself⟩
  intro w' hw
  rw [hloop, Function.update_of_ne hw]

/-! ### The steps of a worker -/

theorem stepSpawn_turn (hstep : s.stepSpawn w = some s') : AsyncTurn s s' w := by
  unfold stepSpawn at hstep
  split at hstep
  · rename_i hpc
    cases hstep
    exact turn_of_same hpc rfl rfl rfl ⟨id, id, id, id⟩
  · rename_i hpc
    split at hstep
    all_goals
      cases hstep
      exact turn_of_same hpc rfl rfl rfl ⟨id, id, id, id⟩
  · rename_i site hpc
    split at hstep
    · obtain ⟨parked, hparked⟩ := pickTargets_frame s (some w)
      have hlist : parked = (s.pickTargets (some w)).2.parked := by rw [hparked]
      simp only [hparked] at hstep
      cases hstep
      refine turn_of rfl (fun hself => .picks ?_ hlist) fun hself => .keeps ?_ ?_ ?_ rfl
      all_goals
        rw [hself, hpc]
        exact id
    · cases hstep
  · rename_i hpc
    cases hstep
    exact turn_of_same hpc rfl rfl rfl ⟨id, id, id, id⟩
  · rename_i hpc
    cases hstep
    exact turn_of_same hpc rfl rfl rfl ⟨id, id, id, id⟩
  · cases hstep

theorem stepPick_turn (hstep : s.stepPick w = some s') : AsyncTurn s s' w := by
  unfold stepPick at hstep
  dsimp only at hstep
  split at hstep
  case h_6 notify hpc =>
    have hplaces : SamePlaces (.execute notify : AsyncPc n K)
        (if notify then .notify .task else .within .task) := by
      cases notify <;> exact ⟨id, id, id, id⟩
    split at hstep
    all_goals
      cases hstep
      exact turn_of_same hpc rfl rfl rfl hplaces
  all_goals
    rename_i hpc
    repeat' split at hstep
    all_goals
      cases hstep
      try exact turn_of_same hpc rfl rfl rfl ⟨id, id, id, id⟩

theorem stepSearch_turn (hstep : s.stepSearch w = some s') : AsyncTurn s s' w := by
  unfold stepSearch at hstep
  split at hstep
  all_goals
    rename_i hpc
    repeat' split at hstep
    all_goals
      cases hstep
      try exact turn_of_same hpc rfl rfl rfl ⟨id, id, id, id⟩

/-- `transition_from_parked`, and after it the drop of the guard when the park is over. -/
theorem unlist_turn {site : UnlistSite} (hpc : (s.loop w).pc = .unlist site)
    (hstep : s.stepPark w = some s') : AsyncTurn s s' w := by
  obtain ⟨parked, hparked⟩ := transitionFromParked_frame s w
  have hlist : parked = (s.transitionFromParked w).parked := by rw [hparked]
  simp only [stepPark, hpc, Option.ite_none_right_eq_some] at hstep
  obtain ⟨-, hstep⟩ := hstep
  rw [hparked] at hstep
  cases site with
  | recheck | preStage =>
      cases hstep
      refine turn_of rfl (fun _ => .unlists hlist) fun hself => .keeps ?_ ?_ ?_ rfl
      all_goals
        rw [hself, hpc]
        exact id
  | leave =>
      cases hstep
      refine turn_of rfl (fun _ => .unlists hlist) fun hself => .drops ?_ ?_ rfl
      all_goals
        rw [hself]
        rfl

/-- Here the worker enters the list of parked workers, or leaves it. -/
theorem stepPark_turn (hstep : s.stepPark w = some s') : AsyncTurn s s' w := by
  cases hpc : (s.loop w).pc with
  | unlist site => exact unlist_turn hpc hstep
  | listed last =>
      simp only [stepPark, hpc] at hstep
      cases hstep
      refine turn_of rfl (fun hself => .lists last hpc ?_ rfl) fun hself => .keeps ?_ ?_ ?_ rfl
      · rw [hself]
        cases last <;> rfl
      all_goals
        rw [hself, hpc]
        cases last <;> exact id
  | recheckHead todo =>
      cases todo
      all_goals
        simp only [stepPark, hpc] at hstep
        cases hstep
        exact turn_of_same hpc rfl rfl rfl ⟨id, id, id, id⟩
  | toParked | recheckGlobal | recheckTail worker head todo =>
      simp only [stepPark, hpc] at hstep
      repeat' split at hstep
      all_goals
        cases hstep
        try exact turn_of_same hpc rfl rfl rfl ⟨id, id, id, id⟩
  | _ =>
      simp only [stepPark, hpc] at hstep
      cases hstep

/-- The exchange of `park_pre_stage`: the worker sleeps, or it finds a notification and is on its
way out with the access that it may have. -/
theorem preStage_turn {mode : ParkMode} (hpc : (s.loop w).pc = .preStage mode)
    (hstep : s.stepParker w = some s') : AsyncTurn s s' w := by
  simp only [stepParker, hpc] at hstep
  cases mode with
  | cv | cvTimeout =>
      split at hstep
      · cases hstep
        exact turn_of_same hpc rfl rfl rfl ⟨id, id, id, id⟩
      all_goals
        cases hstep
        exact turn_of_same hpc rfl rfl rfl ⟨id, fun _ => rfl, id, fun _ => rfl⟩
  | io =>
      split at hstep
      · cases hstep
        exact turn_of_same hpc rfl rfl rfl ⟨id, id, id, id⟩
      all_goals
        cases hstep
        exact turn_of_same hpc rfl rfl rfl ⟨id, id, fun _ => rfl, id⟩

/-- A worker that takes the notification back leaves `park` with the guard dropped. -/
theorem stepParker_turn (hstep : s.stepParker w = some s') : AsyncTurn s s' w := by
  have hparker := hstep
  unfold stepParker at hstep
  split at hstep
  · rename_i mode hpc
    exact preStage_turn hpc hparker
  · rename_i hpc
    cases hstep
    refine turn_of rfl (fun hself => .keeps ?_ rfl) fun hself => .drops ?_ ?_ rfl
    · rw [hself, hpc]
      exact id
    all_goals
      rw [hself]
      rfl
  · rename_i timed hpc
    split at hstep
    · cases hstep
      exact turn_of_same hpc rfl rfl rfl ⟨id, fun _ => rfl, id, fun _ => rfl⟩
    · cases hstep
      exact turn_of_same hpc rfl rfl rfl ⟨id, id, id, id⟩
  · rename_i timed hpc
    cases timed
    all_goals
      cases hstep
      exact turn_of_same hpc rfl rfl rfl ⟨id, id, id, id⟩
  · rename_i hpc
    cases hstep
    exact turn_of_same hpc rfl rfl rfl ⟨id, id, id, id⟩
  · cases hstep

theorem leaveSite_turn {site : SpawnSite} (hpc : (s.loop w).pc = .within site) :
    AsyncTurn s (s.leaveSite w site) w := by
  cases site with
  | timers | task | parkExit => exact turn_of_same hpc rfl rfl rfl ⟨id, id, id, id⟩
  | parkIo => exact turn_of_same hpc rfl rfl rfl ⟨id, id, fun _ => rfl, id⟩
  | driverIo =>
      refine turn_of rfl (fun hself => .keeps ?_ rfl) fun hself => .drops ?_ ?_ rfl
      · rw [hself, hpc]
        exact id
      all_goals
        rw [hself]
        rfl

theorem beginRound_turn (hpc : (s.loop w).pc = .run) : AsyncTurn s (s.beginRound w) w := by
  simp only [beginRound]
  split
  all_goals exact turn_of_same hpc rfl rfl rfl ⟨id, id, id, id⟩

/-- `try_get_access` in `maybe_run_driver`. -/
theorem tryIo_turn (hpc : (s.loop w).pc = .tryIo) (hstep : s.advance w = some s') :
    AsyncTurn s s' w := by
  simp only [advance, hpc] at hstep
  split at hstep
  · rename_i hfree
    cases hstep
    refine turn_of rfl (fun hself => .keeps ?_ rfl) fun hself => .takes hfree rfl ?_ ?_
    · rw [hself, hpc]
      exact id
    all_goals
      rw [hself]
      rfl
  · cases hstep
    exact turn_of_same hpc rfl rfl rfl ⟨id, id, id, id⟩

/-- Every step that a worker makes by itself. -/
theorem advance_turn (hstep : s.advance w = some s') : AsyncTurn s s' w := by
  cases hpc : (s.loop w).pc with
  | tryIo => exact tryIo_turn hpc hstep
  | run =>
      simp only [advance, hpc] at hstep
      cases hstep
      exact beginRound_turn hpc
  | within site =>
      simp only [advance, hpc] at hstep
      cases hstep
      exact leaveSite_turn hpc
  | _ =>
      simp only [advance, hpc] at hstep
      first
      | exact stepSpawn_turn hstep
      | exact stepPick_turn hstep
      | exact stepSearch_turn hstep
      | exact stepPark_turn hstep
      | exact stepParker_turn hstep
      | cases hstep

/-- `try_get_access` in `park`. -/
theorem park_turn {time : SleepTime} (hstep : s.park w time = some s') : AsyncTurn s s' w := by
  unfold park at hstep
  split at hstep
  · rename_i hpc
    have hsleep : ∀ mode : ParkMode, mode ≠ .io → ∀ s'' : AsyncWorkers n K O, s.ioAccess ≠ none →
        s'' = s.goto w (.preStage mode) → AsyncTurn s s'' w := by
      rintro mode hmode s'' htaken rfl
      refine turn_of rfl (fun hself => .keeps ?_ rfl) fun hself => .misses hpc htaken ?_ rfl
      · rw [hself, hpc]
        exact id
      · rw [hself]
        cases mode with
        | io => exact absurd rfl hmode
        | cv | cvTimeout => rfl
    cases time with
    | zero =>
        cases hstep
        exact turn_of_same hpc rfl rfl rfl ⟨id, fun _ => rfl, id, id⟩
    | timed | forever =>
        dsimp only at hstep
        split at hstep
        · rename_i hfree
          cases hstep
          refine turn_of rfl (fun hself => .keeps ?_ rfl) fun hself => .takes hfree rfl ?_ ?_
          · rw [hself, hpc]
            exact id
          all_goals
            rw [hself]
            rfl
        · rename_i htaken
          cases hstep
          exact hsleep _ (by decide) _ htaken rfl
  · cases hstep

variable [DecidableEq O]

/-- The worker whose step it is. -/
def turnOf : AsyncAction n K O → Option (Fin n)
  | .advance w | .spawn w _ | .spill w _ | .overflow w | .search w _ | .steal w _ | .park w _
  | .elapsed w | .returns w => some w
  | .spawnOutside _ _ | .unparkSome _ | .outside _ => none

/-- Every step of a worker is a turn of it. -/
theorem step_turn {a : AsyncAction n K O} (ha : turnOf a = some w) (hstep : s.step a = some s') :
    AsyncTurn s s' w := by
  cases a with
  | spawnOutside o task | unparkSome o | outside o => cases ha
  | advance w =>
      cases ha
      exact advance_turn hstep
  | park w time =>
      cases ha
      exact park_turn hstep
  | overflow w =>
      cases ha
      simp only [step] at hstep
      split at hstep
      · rename_i hpc
        cases hstep
        exact turn_of_same hpc rfl rfl rfl
          ⟨fun _ => rfl, fun _ => rfl, (absurd · Bool.false_ne_true), id⟩
      · cases hstep
  | elapsed w =>
      cases ha
      simp only [step] at hstep
      split at hstep
      · rename_i hpc
        cases hstep
        exact turn_of_same hpc rfl rfl rfl ⟨id, fun _ => rfl, id, fun _ => rfl⟩
      · cases hstep
  | spawn w task | returns w =>
      cases ha
      simp only [step] at hstep
      split at hstep
      all_goals
        cases hstep
        try
          rename_i hpc
          exact turn_of_same hpc rfl rfl rfl ⟨id, id, id, id⟩
  | spill w k | search w start | steal w k =>
      cases ha
      simp only [step, search, steal] at hstep
      repeat' split at hstep
      all_goals
        cases hstep
        try
          rename_i hpc _
          exact turn_of_same hpc rfl rfl rfl ⟨id, id, id, id⟩

/-- A thread outside can take an index from the list. -/
theorem step_outside {a : AsyncAction n K O} (ha : turnOf a = none) (hstep : s.step a = some s') :
    s'.loop = s.loop ∧ s'.ioAccess = s.ioAccess ∧
      (s'.parked = s.parked ∨ s'.parked = (s.pickTargets none).2.parked) := by
  cases a with
  | spawnOutside o task | unparkSome o =>
      simp only [step] at hstep
      repeat' split at hstep
      all_goals
        cases hstep
        try exact ⟨rfl, rfl, Or.inl rfl⟩
  | outside o =>
      simp only [step, stepOutside] at hstep
      obtain ⟨parked, hparked⟩ := pickTargets_frame s none
      have hlist : parked = (s.pickTargets none).2.parked := by rw [hparked]
      simp only [hparked] at hstep
      repeat' split at hstep
      all_goals
        cases hstep
        try first
        | exact ⟨rfl, rfl, Or.inl rfl⟩
        | exact ⟨rfl, rfl, Or.inr hlist⟩
  | _ => cases ha

end Kyron.Proofs.Scheduler
