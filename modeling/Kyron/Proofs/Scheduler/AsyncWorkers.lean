import Kyron.Lib.Count
import Kyron.Scheduler.AsyncWorkers

/-!
# `Kyron.Proofs.Scheduler.AsyncWorkers`: queued work is never stranded

A worker goes to sleep after it has seen its own queue empty, and only it pushes there. So the
local queues of sleeping workers are empty.

For the global queue, somebody has to look at it after each push. `OnDuty` are the places from which
a worker looks at it again before it sleeps. `Attended` says that some worker is on duty, or is
notified and will be, or that the thread that pushed has not unparked anybody yet. A worker falls
asleep in three ways.

* It is turned away by the limit on searching workers. Then another one is searching.
* It was searching, and is not the last one. Then another one is searching.
* It was the last one, and finds the global queue empty. Who pushes after that unparks a worker.

A searching worker is on duty, and `CountIs` says that the counter is exact, so a positive counter
gives such a worker. `queued_work_not_stranded` is the result.
-/

set_option autoImplicit false

namespace Kyron.Proofs.Scheduler

open Kyron.Lib
open Kyron.Scheduler
open Function
open AsyncWorkers

variable {n : Nat} {K O : Type}

/-! ### Places -/

/-- The site is in `park`. -/
def inPark : SpawnSite → Bool
  | .parkIo | .parkExit => true
  | .timers | .driverIo | .task => false

/-- The worker has left the counter of searching workers on its way to sleep, and is not back in
its loop. -/
def isParking : AsyncPc n K → Bool
  | .within site | .push site _ _ | .notify site | .pick site | .unpark site _ => inPark site
  | .listed _ | .recheckGlobal | .recheckHead _ | .recheckTail _ _ _ | .unlist _ | .park
  | .preStage _ | .rearm | .check _ | .sleep _ | .blocked _ | .move | .panicked => true
  | .run | .tryIo | .next | .fetchTail _ | .fetchLen _ _ | .fetchMove _ _ | .pop _ _ | .searchLoad
  | .searchAdd | .steal _ _ | .publish _ _ _ | .execute _ | .toParked => false

/-- The worker is counted as searching. -/
def Counted (l : AsyncLoop n K) : Prop := l.isSearching = true ∧ isParking l.pc = false

/-- The local state that a worker has at its place, where that is known. -/
def expects : AsyncPc n K → Option Bool
  | .run | .tryIo => some false
  | .within site | .push site _ _ | .notify site | .pick site | .unpark site _ =>
      if inPark site then none else some false
  | .fetchTail site | .fetchLen site _ | .fetchMove site _ | .pop site _ =>
      if site = .next then none else some true
  | .steal _ _ | .publish _ _ _ => some true
  | _ => none

def LoopOk (l : AsyncLoop n K) : Prop := ∀ b ∈ expects l.pc, l.isSearching = b

/-- The worker looks at the global queue, or gives that task to another worker, before it
sleeps. -/
def OnDuty (l : AsyncLoop n K) : Prop :=
  match l.pc with
  | .toParked => l.isSearching = true
  | .listed last => last = true
  | .recheckHead _ | .recheckTail _ _ _ | .park | .preStage _ | .check _ | .sleep _ | .blocked _ =>
      False
  | _ => True

/-- The worker has seen its own queue empty and has not pushed to it since. -/
def Emptied : AsyncPc n K → Prop
  | .searchLoad | .searchAdd | .toParked | .listed _ | .recheckGlobal | .recheckHead _
  | .recheckTail _ _ _ | .park | .preStage _ | .check _ | .sleep _ | .blocked _ => True
  | .fetchTail site | .fetchLen site _ | .fetchMove site _ => site = .global
  | _ => False

/-- The call has pushed a task and has not unparked all workers that it picked. -/
def Spawning : OutsidePc n → Prop
  | .pick spawned | .unpark spawned _ => spawned = true
  | _ => False

theorem Counted.onDuty {l : AsyncLoop n K} (h : Counted l) : OnDuty l := by
  obtain ⟨hsearching, hparking⟩ := h
  unfold OnDuty
  split <;> rename_i hpc
  case h_1 => exact hsearching
  all_goals first
    | trivial
    | rw [hpc] at hparking
      cases hparking

/-! ### The invariant -/

/-- Somebody will look at the global queue. -/
def Attended (s : AsyncWorkers n K O) : Prop :=
  (∃ w, OnDuty (s.loop w)) ∨ (∃ w, s.state w = .notified) ∨ ∃ o, Spawning (s.outside o)

/-- What holds in every state that is reached. The counter is exact, and who has seen its queue
empty still has it empty. -/
structure WorkersOk (s : AsyncWorkers n K O) : Prop where
  count : CountIs Counted s.loop s.numOfSearchingWorkers
  loops : ∀ w, LoopOk (s.loop w)
  queues : ∀ w, Emptied (s.loop w).pc → (s.queue w).items = []
  targets : ∀ o spawned, s.outside o ≠ .unpark spawned []
  attended : s.global ≠ [] → Attended s

theorem workersOk_new (localCapacity globalCapacity : Nat) :
    WorkersOk (AsyncWorkers.new localCapacity globalCapacity : AsyncWorkers n K O) where
  count := .none nofun
  loops := fun _ b hb => by cases hb; rfl
  queues := fun _ => nofun
  targets := nofun
  attended := fun hne => absurd rfl hne

variable {s s' : AsyncWorkers n K O} {w : Fin n} {l : AsyncLoop n K} {pc pc' : AsyncPc n K}

/-- One worker moves. -/
theorem WorkersOk.moves (h : WorkersOk s) (hloop : s'.loop = Function.update s.loop w l)
    (hout : s'.outside = s.outside)
    (hcount : CountIs Counted (Function.update s.loop w l) s'.numOfSearchingWorkers)
    (hok : LoopOk l)
    (hothers : ∀ w', w' ≠ w → (s.queue w').items = [] → (s'.queue w').items = [])
    (hempty : Emptied l.pc → (s'.queue w).items = [])
    (hattended : s'.global ≠ [] → Attended s') : WorkersOk s' where
  count := by rwa [hloop]
  loops := by
    rw [hloop, forall_update_iff s.loop fun _ l => LoopOk l]
    exact ⟨hok, fun w' _ => h.loops w'⟩
  queues := by
    rw [hloop, forall_update_iff s.loop fun w l => Emptied l.pc → (s'.queue w).items = []]
    exact ⟨hempty, fun w' hw hpc => hothers w' hw (h.queues w' hpc)⟩
  targets := by
    rw [hout]
    exact h.targets
  attended := hattended

theorem attended_of_onDuty (hloop : s'.loop = Function.update s.loop w l) (h : OnDuty l) :
    Attended s' := by
  refine Or.inl ⟨w, ?_⟩
  rwa [hloop, update_self]

/-- Another worker searches. -/
theorem attended_of_counted {w' : Fin n} (hloop : s'.loop = Function.update s.loop w l)
    (hne : w' ≠ w) (h : Counted (s.loop w')) : Attended s' := by
  refine Or.inl ⟨w', ?_⟩
  rw [hloop, update_of_ne hne]
  exact h.onDuty

/-- A worker that was not on duty moves. -/
theorem Attended.offDuty (h : Attended s) (hloop : s'.loop = Function.update s.loop w l)
    (hout : s'.outside = s.outside) (hoff : ¬ OnDuty (s.loop w))
    (hstate : ∀ w', s.state w' = .notified → s'.state w' = .notified) : Attended s' := by
  rcases h with ⟨w', hduty⟩ | ⟨w', hnotified⟩ | hspawning
  · have hne : w' ≠ w := by
      rintro rfl
      exact hoff hduty
    refine Or.inl ⟨w', ?_⟩
    rwa [hloop, update_of_ne hne]
  · exact Or.inr (Or.inl ⟨w', hstate w' hnotified⟩)
  · exact Or.inr (Or.inr (by rwa [hout]))

/-! ### Moves with the local state

Most steps of a worker keep its local state and the counter. `Goes s w pc pc' s'` is such a move
from `pc` to `pc'`. -/

structure Goes (s : AsyncWorkers n K O) (w : Fin n) (pc pc' : AsyncPc n K)
    (s' : AsyncWorkers n K O) : Prop where
  before : (s.loop w).pc = pc
  loop : s'.loop = Function.update s.loop w { s.loop w with pc := pc' }
  outside : s'.outside = s.outside
  counter : s'.numOfSearchingWorkers = s.numOfSearchingWorkers

/-- The places agree on what is known of a worker there. -/
structure Agrees (pc pc' : AsyncPc n K) : Prop where
  parking : isParking pc' = isParking pc
  expected : ∀ b ∈ expects pc', b ∈ expects pc

theorem Goes.ok (hgoes : Goes s w pc pc' s') (h : WorkersOk s) (hagrees : Agrees pc pc')
    (hothers : ∀ w', w' ≠ w → (s.queue w').items = [] → (s'.queue w').items = [])
    (hempty : Emptied pc' → (s'.queue w).items = [])
    (hattended : s'.global ≠ [] → Attended s') : WorkersOk s' := by
  have hloops := h.loops w
  rw [LoopOk, hgoes.before] at hloops
  refine h.moves hgoes.loop hgoes.outside ?_ (fun b hb => hloops b (hagrees.expected b hb)) hothers
    hempty hattended
  rw [hgoes.counter]
  refine h.count.update_same ?_
  rw [Counted, Counted, hagrees.parking, hgoes.before]

/-- The worker writes to its own queue at most, and goes to a place where it is on duty. -/
theorem Goes.writes (hgoes : Goes s w pc pc' s') (h : WorkersOk s) (hagrees : Agrees pc pc')
    (hothers : ∀ w', w' ≠ w → (s.queue w').items = [] → (s'.queue w').items = [])
    (hempty : ¬ Emptied pc') (hduty : OnDuty { s.loop w with pc := pc' }) : WorkersOk s' :=
  hgoes.ok h hagrees hothers (absurd · hempty) fun _ => attended_of_onDuty hgoes.loop hduty

/-- The worker leaves the local queues alone, and goes to a place where it is on duty. -/
theorem Goes.wakes (hgoes : Goes s w pc pc' s') (h : WorkersOk s) (hagrees : Agrees pc pc')
    (hqueue : s'.queue = s.queue) (hempty : Emptied pc' → Emptied pc)
    (hduty : OnDuty { s.loop w with pc := pc' }) : WorkersOk s' := by
  refine hgoes.ok h hagrees ?_ ?_ fun _ => attended_of_onDuty hgoes.loop hduty
  · intro w' _ hitems
    rwa [hqueue]
  · intro hpc
    rw [hqueue]
    exact h.queues w (by rw [hgoes.before]; exact hempty hpc)

/-- The worker is not on duty, and leaves all queues alone. -/
theorem Goes.sleeps (hgoes : Goes s w pc pc' s') (h : WorkersOk s) (hagrees : Agrees pc pc')
    (hqueue : s'.queue = s.queue) (hglobal : s'.global = s.global) (hempty : Emptied pc)
    (hoff : ¬ OnDuty { s.loop w with pc })
    (hstate : ∀ w', s.state w' = .notified → s'.state w' = .notified) : WorkersOk s' := by
  refine hgoes.ok h hagrees ?_ ?_ ?_
  · intro w' _ hitems
    rwa [hqueue]
  · intro _
    rw [hqueue]
    exact h.queues w (by rwa [hgoes.before])
  · intro hne
    rw [hglobal] at hne
    refine (h.attended hne).offDuty hgoes.loop hgoes.outside ?_ hstate
    rwa [← hgoes.before] at hoff

/-! ### Queues and lists -/

theorem items_take_eq_nil {q : LocalQueue K} {k : Nat} (h : q.items = []) :
    (q.take k).2.items = [] := by
  simp only [LocalQueue.take, LocalQueue.items, List.drop_eq_nil_iff] at h ⊢
  omega

theorem items_of_take_one {q q' : LocalQueue K} (h : q.take 1 = ([], q')) : q.items = [] := by
  have htake : q.items.take 1 = [] := congrArg Prod.fst h
  simpa using htake

theorem items_push_nil {q : LocalQueue K} (h : q.items = []) : (q.push []).items = [] := by
  simpa [LocalQueue.push, LocalQueue.items] using h

theorem setQueue_other (q : LocalQueue K) (w' : Fin n) (hw : w' ≠ w)
    (h : (s.queue w').items = []) : ((s.setQueue w q).queue w').items = [] := by
  show (Function.update s.queue w q w').items = []
  rwa [update_of_ne hw]

/-- Taking an index from the list of parked workers changes nothing but the list. -/
theorem pickTargets_frame (s : AsyncWorkers n K O) (current : Option (Fin n)) :
    ∃ parked, (s.pickTargets current).2 = { s with parked } := by
  unfold pickTargets
  split
  · exact ⟨_, rfl⟩
  · exact ⟨s.parked, rfl⟩

/-- There is somebody to unpark. -/
theorem pickTargets_ne_nil (hn : 0 < n) (s : AsyncWorkers n K O) (current : Option (Fin n)) :
    (s.pickTargets current).1 ≠ [] := by
  unfold pickTargets
  split
  · rename_i i hfind
    have hlt : i < s.parked.length := (List.findIdx?_eq_some_iff_findIdx_eq.mp hfind).1
    simp only [ne_eq, List.take_eq_nil_iff, List.drop_eq_nil_iff]
    omega
  · simp only [ne_eq, List.finRange_eq_nil_iff]
    omega

theorem transitionFromParked_frame (s : AsyncWorkers n K O) (w : Fin n) :
    ∃ parked, s.transitionFromParked w = { s with parked } := by
  unfold transitionFromParked
  split
  · exact ⟨_, rfl⟩
  · exact ⟨s.parked, rfl⟩

/-! ### The steps of a worker -/

/-- The steps of a spawn and of the notification after it. -/
theorem stepSpawn_ok (h : WorkersOk s) (hstep : s.stepSpawn w = some s') : WorkersOk s' := by
  unfold stepSpawn at hstep
  split at hstep
  · -- The task goes to the own queue. The worker is awake, so nothing is owed for it.
    rename_i site task spilled hpc
    cases hstep
    exact Goes.writes ⟨hpc, rfl, rfl, rfl⟩ h ⟨rfl, fun _ => id⟩ (setQueue_other _) nofun trivial
  · -- `try_notify_siblings_workers` may find enough workers searching.
    rename_i site hpc
    split at hstep <;> cases hstep <;>
      exact Goes.wakes ⟨hpc, rfl, rfl, rfl⟩ h ⟨rfl, fun _ => id⟩ rfl nofun trivial
  · rename_i site hpc
    split at hstep
    · obtain ⟨parked, hparked⟩ := pickTargets_frame s (some w)
      simp only [hparked] at hstep
      cases hstep
      exact Goes.wakes ⟨hpc, rfl, rfl, rfl⟩ h ⟨rfl, fun _ => id⟩ rfl nofun trivial
    · cases hstep
  · rename_i site target targets hpc
    cases hstep
    exact Goes.wakes ⟨hpc, rfl, rfl, rfl⟩ h ⟨rfl, fun _ => id⟩ rfl nofun trivial
  · rename_i site hpc
    cases hstep
    exact Goes.wakes ⟨hpc, rfl, rfl, rfl⟩ h ⟨rfl, fun _ => id⟩ rfl nofun trivial
  · cases hstep

/-- A worker that has found a task leaves the counter. -/
theorem execute_ok (h : WorkersOk s) {notify : Bool} (hpc : (s.loop w).pc = .execute notify)
    (hstep : s.stepPick w = some s') : WorkersOk s' := by
  have hnext : ∀ b : Bool, ¬ Emptied (if b then .notify .task else .within .task : AsyncPc n K) ∧
      expects (if b then .notify .task else .within .task : AsyncPc n K) = some false ∧
      ∀ searching tick, OnDuty (n := n) (K := K)
        ⟨if b then .notify .task else .within .task, searching, tick⟩ := by
    rintro (_ | _) <;> exact ⟨nofun, rfl, fun _ _ => trivial⟩
  obtain ⟨hempty, hexpects, hduty⟩ := hnext notify
  simp only [stepPick, hpc] at hstep
  split at hstep
  · rename_i hsearching
    cases hstep
    refine h.moves rfl rfl ?_ (by simp [LoopOk, hexpects]) (fun _ _ => id) (absurd · hempty)
      fun _ => attended_of_onDuty rfl (hduty _ _)
    refine h.count.update_leave ⟨hsearching, by rw [hpc]; rfl⟩ ?_
    rintro ⟨hfalse, -⟩
    cases hfalse
  · rename_i hnot
    cases hstep
    refine h.moves rfl rfl (h.count.update_same (by simp [Counted, hnot])) ?_ (fun _ _ => id)
      (absurd · hempty) fun _ => attended_of_onDuty rfl (hduty _ _)
    simpa [LoopOk, hexpects] using hnot

/-- What is fetched from the global queue goes to the own one. -/
theorem fetchMove_ok (h : WorkersOk s) {site : PopSite} {possible : Nat}
    (hpc : (s.loop w).pc = .fetchMove site possible) (hstep : s.stepPick w = some s') :
    WorkersOk s' := by
  simp only [stepPick, hpc] at hstep
  cases site with
  | next | steal =>
      cases hstep
      exact Goes.writes ⟨hpc, rfl, rfl, rfl⟩ h ⟨rfl, fun _ => id⟩ (setQueue_other _) nofun trivial
  | global =>
      dsimp only at hstep
      split at hstep
      · cases hstep
        exact Goes.writes ⟨hpc, rfl, rfl, rfl⟩ h ⟨rfl, fun _ => id⟩ (setQueue_other _) nofun trivial
      · -- Nothing was taken, so the own queue is still empty.
        rename_i hnone
        cases hstep
        have htasks : s.global.take possible = [] :=
          List.eq_nil_of_length_eq_zero (Nat.eq_zero_of_not_pos hnone)
        have hitems : (s.queue w).items = [] := h.queues w (by rw [hpc]; rfl)
        have hsearching : (s.loop w).isSearching = true := h.loops w true (by rw [hpc]; rfl)
        refine Goes.ok ⟨hpc, rfl, rfl, rfl⟩ h ⟨rfl, nofun⟩ (setQueue_other _) (fun _ => ?_)
          fun _ => attended_of_onDuty rfl hsearching
        rw [htasks]
        simpa [goto, setQueue] using items_push_nil hitems

/-- A pop that finds nothing shows that the own queue is empty. -/
theorem pop_ok (h : WorkersOk s) {site : PopSite} {notify : Bool}
    (hpc : (s.loop w).pc = .pop site notify) (hstep : s.stepPick w = some s') : WorkersOk s' := by
  simp only [stepPick, hpc] at hstep
  split at hstep
  · cases hstep
    exact Goes.writes ⟨hpc, rfl, rfl, rfl⟩ h ⟨rfl, nofun⟩ (setQueue_other _) nofun trivial
  · rename_i htake
    have hitems := items_of_take_one htake
    cases site with
    | next =>
        cases hstep
        exact Goes.ok ⟨hpc, rfl, rfl, rfl⟩ h ⟨rfl, nofun⟩ (fun _ _ => id) (fun _ => hitems)
          fun _ => attended_of_onDuty rfl trivial
    | steal =>
        cases hstep
        exact Goes.ok ⟨hpc, rfl, rfl, rfl⟩ h ⟨rfl, fun _ => id⟩ (fun _ _ => id) (fun _ => hitems)
          fun _ => attended_of_onDuty rfl trivial
    | global =>
        cases hstep
        have hsearching : (s.loop w).isSearching = true := h.loops w true (by rw [hpc]; rfl)
        exact Goes.ok ⟨hpc, rfl, rfl, rfl⟩ h ⟨rfl, nofun⟩ (fun _ _ => id) (fun _ => hitems)
          fun _ => attended_of_onDuty rfl hsearching

/-- The steps that look for a task in the own and in the global queue. -/
theorem stepPick_ok (h : WorkersOk s) (hstep : s.stepPick w = some s') : WorkersOk s' := by
  cases hpc : (s.loop w).pc with
  | next =>
      simp only [stepPick, hpc] at hstep
      split at hstep <;> cases hstep <;>
        exact Goes.wakes ⟨hpc, rfl, rfl, rfl⟩ h ⟨rfl, nofun⟩ rfl nofun trivial
  | fetchTail site | fetchLen site free =>
      simp only [stepPick, hpc] at hstep
      cases hstep
      exact Goes.wakes ⟨hpc, rfl, rfl, rfl⟩ h ⟨rfl, fun _ => id⟩ rfl id trivial
  | fetchMove site possible => exact fetchMove_ok h hpc hstep
  | pop site notify => exact pop_ok h hpc hstep
  | execute notify => exact execute_ok h hpc hstep
  | _ =>
      simp only [stepPick, hpc] at hstep
      cases hstep

/-- A worker that is turned away leaves the search to another one. -/
theorem stepSearch_ok (hn : 0 < n) (h : WorkersOk s) (hstep : s.stepSearch w = some s') :
    WorkersOk s' := by
  unfold stepSearch at hstep
  split at hstep
  · rename_i hpc
    split at hstep
    · cases hstep
      exact Goes.wakes ⟨hpc, rfl, rfl, rfl⟩ h ⟨rfl, nofun⟩ rfl id trivial
    · rename_i hnot
      split at hstep
      · -- The limit is reached, so the counter is positive, and this worker is not in it.
        rename_i hmany
        cases hstep
        obtain ⟨w', hcounted⟩ := h.count.exists_of_pos (by omega)
        have hne : w' ≠ w := by
          rintro rfl
          exact hnot hcounted.1
        exact Goes.ok ⟨hpc, rfl, rfl, rfl⟩ h ⟨rfl, nofun⟩ (fun _ _ => id)
          (fun _ => h.queues w (by rw [hpc]; trivial))
          fun _ => attended_of_counted rfl hne hcounted
      · cases hstep
        exact Goes.wakes ⟨hpc, rfl, rfl, rfl⟩ h ⟨rfl, nofun⟩ rfl id trivial
  · rename_i stolen hpc
    cases hstep
    exact Goes.wakes ⟨hpc, rfl, rfl, rfl⟩ h ⟨rfl, fun _ => id⟩ rfl nofun trivial
  · rename_i tasks todo stolen hpc
    cases hstep
    exact Goes.writes ⟨hpc, rfl, rfl, rfl⟩ h ⟨rfl, fun _ => id⟩ (setQueue_other _) nofun trivial
  · cases hstep

/-- `transition_to_parked`: another worker is searching, or this one was the last and goes on to
recheck. -/
theorem toParked_ok (h : WorkersOk s) (hpc : (s.loop w).pc = .toParked)
    (hstep : s.stepPark w = some s') : WorkersOk s' := by
  have hitems : (s.queue w).items = [] := h.queues w (by rw [hpc]; trivial)
  simp only [stepPark, hpc, Option.ite_none_right_eq_some] at hstep
  obtain ⟨-, hstep⟩ := hstep
  split at hstep
  · -- It leaves the counter, and `fetch_sub` tells it whether it was the last.
    rename_i hsearching
    cases hstep
    have hself : Counted (s.loop w) := ⟨hsearching, by rw [hpc]; rfl⟩
    refine h.moves rfl rfl (h.count.update_leave hself (by simp [Counted, isParking])) nofun
      (fun _ _ => id) (fun _ => hitems) fun _ => ?_
    by_cases hlast : s.numOfSearchingWorkers = 1
    · exact attended_of_onDuty rfl (decide_eq_true hlast)
    · have hpos := h.count.pos hself
      obtain ⟨w', hne, hcounted⟩ := h.count.exists_ne (by omega) w
      exact attended_of_counted rfl hne hcounted
  · -- It was turned away before. The duty was passed on then.
    rename_i hnot
    cases hstep
    refine h.moves rfl rfl (h.count.update_same (by simp [Counted, hnot])) nofun (fun _ _ => id)
      (fun _ => hitems) fun hne => ?_
    exact (h.attended hne).offDuty rfl rfl (by rw [OnDuty, hpc]; exact hnot) fun _ => id

/-- A worker comes back from `park_worker`. -/
theorem leavePark_ok (h : WorkersOk s) (hparking : isParking (s.loop w).pc = true) :
    WorkersOk (s.leavePark w) := by
  refine h.moves rfl rfl (h.count.update_same ?_) (by simp [LoopOk, expects]) (fun _ _ => id) nofun
    fun _ => attended_of_onDuty rfl trivial
  simp [Counted, hparking]

/-- `transition_from_parked` is followed by a place where the worker is on duty. -/
theorem unlist_ok (h : WorkersOk s) {site : UnlistSite} (hpc : (s.loop w).pc = .unlist site)
    (hstep : s.stepPark w = some s') : WorkersOk s' := by
  simp only [stepPark, hpc, Option.ite_none_right_eq_some] at hstep
  obtain ⟨-, hstep⟩ := hstep
  obtain ⟨parked, hparked⟩ := transitionFromParked_frame s w
  rw [hparked] at hstep
  cases site with
  | recheck =>
      cases hstep
      have hframe : WorkersOk { s with parked } :=
        ⟨h.count, h.loops, h.queues, h.targets, h.attended⟩
      exact leavePark_ok hframe (by rw [hpc]; rfl)
  | preStage | leave =>
      cases hstep
      exact Goes.wakes ⟨hpc, rfl, rfl, rfl⟩ h ⟨rfl, nofun⟩ rfl nofun trivial

/-- The last searching worker goes to sleep only after it has seen the global queue empty. -/
theorem stepPark_ok (h : WorkersOk s) (hstep : s.stepPark w = some s') : WorkersOk s' := by
  cases hpc : (s.loop w).pc with
  | toParked => exact toParked_ok h hpc hstep
  | listed last =>
      simp only [stepPark, hpc] at hstep
      cases last <;> cases hstep
      · exact Goes.sleeps ⟨hpc, rfl, rfl, rfl⟩ h ⟨rfl, nofun⟩ rfl rfl trivial nofun fun _ => id
      · exact Goes.wakes ⟨hpc, rfl, rfl, rfl⟩ h ⟨rfl, nofun⟩ rfl id trivial
  | recheckGlobal =>
      simp only [stepPark, hpc] at hstep
      split at hstep
      · -- Nothing is there to look at. Who pushes from now on unparks a worker.
        rename_i hglobal
        cases hstep
        exact Goes.ok ⟨hpc, rfl, rfl, rfl⟩ h ⟨rfl, nofun⟩ (fun _ _ => id)
          (fun _ => h.queues w (by rw [hpc]; trivial)) fun hne => absurd hglobal hne
      · cases hstep
        exact Goes.wakes ⟨hpc, rfl, rfl, rfl⟩ h ⟨rfl, nofun⟩ rfl nofun trivial
  | recheckHead todo =>
      cases todo <;> simp only [stepPark, hpc] at hstep <;> cases hstep <;>
        exact Goes.sleeps ⟨hpc, rfl, rfl, rfl⟩ h ⟨rfl, nofun⟩ rfl rfl trivial id fun _ => id
  | recheckTail worker head todo =>
      simp only [stepPark, hpc] at hstep
      split at hstep <;> cases hstep
      · exact Goes.wakes ⟨hpc, rfl, rfl, rfl⟩ h ⟨rfl, nofun⟩ rfl nofun trivial
      · exact Goes.sleeps ⟨hpc, rfl, rfl, rfl⟩ h ⟨rfl, nofun⟩ rfl rfl trivial id fun _ => id
  | unlist site => exact unlist_ok h hpc hstep
  | _ =>
      simp only [stepPark, hpc] at hstep
      cases hstep

/-- A worker that is not notified changes its own state. -/
theorem setState_notified {state : WorkerState} (hw : s.state w ≠ .notified) (w' : Fin n)
    (h : s.state w' = .notified) : (s.setState w state).state w' = .notified := by
  have hne : w' ≠ w := by
    rintro rfl
    exact hw h
  show Function.update s.state w state w' = .notified
  rwa [update_of_ne hne]

/-- A worker that finds a notification is on duty again, and only then it takes it back. -/
theorem stepParker_ok (h : WorkersOk s) (hstep : s.stepParker w = some s') : WorkersOk s' := by
  unfold stepParker at hstep
  split at hstep
  · -- preStage: the exchange succeeds from `EXECUTING` only, so it takes no notification away.
    rename_i mode hpc
    split at hstep
    · rename_i hstate
      have hw : s.state w ≠ .notified := by rw [hstate]; nofun
      cases mode <;> cases hstep <;>
        exact Goes.sleeps ⟨hpc, rfl, rfl, rfl⟩ h ⟨rfl, nofun⟩ rfl rfl trivial id
          (setState_notified hw)
    all_goals
      cases hstep
      exact Goes.wakes ⟨hpc, rfl, rfl, rfl⟩ h ⟨rfl, nofun⟩ rfl nofun trivial
  · rename_i hpc
    cases hstep
    exact Goes.wakes ⟨hpc, rfl, rfl, rfl⟩ h ⟨rfl, nofun⟩ rfl nofun trivial
  · -- check
    rename_i timed hpc
    split at hstep <;> cases hstep
    · exact Goes.wakes ⟨hpc, rfl, rfl, rfl⟩ h ⟨rfl, nofun⟩ rfl nofun trivial
    · exact Goes.sleeps ⟨hpc, rfl, rfl, rfl⟩ h ⟨rfl, nofun⟩ rfl rfl trivial id fun _ => id
  · -- sleep
    rename_i timed hpc
    cases hstep
    exact Goes.sleeps ⟨hpc, rfl, rfl, rfl⟩ h ⟨rfl, nofun⟩ rfl rfl trivial id fun _ => id
  · rename_i hpc
    cases hstep
    exact Goes.wakes ⟨hpc, rfl, rfl, rfl⟩ h ⟨rfl, nofun⟩ rfl nofun trivial
  · cases hstep

/-- A worker leaves a place where it wakes tasks. -/
theorem leaveSite_ok (h : WorkersOk s) {site : SpawnSite} (hpc : (s.loop w).pc = .within site) :
    WorkersOk (s.leaveSite w site) := by
  cases site with
  | timers | task =>
      exact Goes.wakes ⟨hpc, rfl, rfl, rfl⟩ h ⟨rfl, fun _ => id⟩ rfl nofun trivial
  | driverIo | parkIo => exact Goes.wakes ⟨hpc, rfl, rfl, rfl⟩ h ⟨rfl, nofun⟩ rfl nofun trivial
  | parkExit => exact leavePark_ok h (by rw [hpc]; rfl)

theorem beginRound_ok (h : WorkersOk s) (hpc : (s.loop w).pc = .run) :
    WorkersOk (s.beginRound w) := by
  have hsearching : (s.loop w).isSearching = false := h.loops w false (by rw [hpc]; rfl)
  simp only [beginRound]
  split <;>
    exact h.moves rfl rfl (h.count.update_same (by simp [Counted, hsearching]))
      (by simp [LoopOk, expects, inPark, hsearching]) (fun _ _ => id) nofun
      fun _ => attended_of_onDuty rfl trivial

/-- Every step that a worker makes by itself. -/
theorem advance_ok (hn : 0 < n) (h : WorkersOk s) (hstep : s.advance w = some s') :
    WorkersOk s' := by
  unfold advance at hstep
  split at hstep
  case h_1 hpc =>
    cases hstep
    exact beginRound_ok h hpc
  case h_2 site hpc =>
    cases hstep
    exact leaveSite_ok h hpc
  case h_3 hpc =>
    split at hstep <;> cases hstep
    · exact Goes.wakes ⟨hpc, rfl, rfl, rfl⟩ h ⟨rfl, fun _ => id⟩ rfl nofun trivial
    · exact Goes.wakes ⟨hpc, rfl, rfl, rfl⟩ h ⟨rfl, nofun⟩ rfl nofun trivial
  -- Every other place belongs to one of the groups of steps.
  all_goals first
    | exact stepSpawn_ok h hstep
    | exact stepPick_ok h hstep
    | exact stepSearch_ok hn h hstep
    | exact stepPark_ok h hstep
    | exact stepParker_ok h hstep
    | cases hstep

/-- A worker enters the counter. -/
theorem search_ok (h : WorkersOk s) {start : Nat} (hstep : s.search w start = some s') :
    WorkersOk s' := by
  unfold search at hstep
  split at hstep
  · rename_i hpc
    split at hstep
    · rename_i hsearching
      cases hstep
      have hself : Counted (s.loop w) := ⟨hsearching, by rw [hpc]; rfl⟩
      exact h.moves rfl rfl (h.count.update_same (iff_of_true hself ⟨hsearching, rfl⟩))
        (by simpa [LoopOk, expects] using hsearching) (fun _ _ => id) nofun
        fun _ => attended_of_onDuty rfl trivial
    · rename_i hnot
      cases hstep
      exact h.moves rfl rfl (h.count.update_enter (fun hcounted => hnot hcounted.1) ⟨rfl, rfl⟩)
        (by simp [LoopOk, expects]) (fun _ _ => id) nofun fun _ => attended_of_onDuty rfl trivial
  · cases hstep

/-- A steal takes tasks away from another queue. -/
theorem steal_ok (h : WorkersOk s) {k : Nat} (hstep : s.steal w k = some s') : WorkersOk s' := by
  unfold steal at hstep
  split at hstep
  · rename_i worker todo stolen hpc
    split at hstep <;> cases hstep
    · exact Goes.wakes ⟨hpc, rfl, rfl, rfl⟩ h ⟨rfl, fun _ => id⟩ rfl nofun trivial
    · refine Goes.writes ⟨hpc, rfl, rfl, rfl⟩ h ⟨rfl, fun _ => id⟩ (fun w' _ hitems => ?_) nofun
        trivial
      by_cases hw : w' = worker
      · subst hw
        show (Function.update s.queue w' ((s.queue w').take k).2 w').items = []
        rw [update_self]
        exact items_take_eq_nil hitems
      · exact setQueue_other _ w' hw hitems
  · cases hstep

theorem park_ok (h : WorkersOk s) {time : SleepTime} (hstep : s.park w time = some s') :
    WorkersOk s' := by
  unfold park at hstep
  split at hstep
  · rename_i hpc
    split at hstep
    · cases hstep
      exact Goes.wakes ⟨hpc, rfl, rfl, rfl⟩ h ⟨rfl, nofun⟩ rfl nofun trivial
    all_goals
      split at hstep <;> cases hstep <;>
        exact Goes.sleeps ⟨hpc, rfl, rfl, rfl⟩ h ⟨rfl, nofun⟩ rfl rfl trivial id fun _ => id
  · cases hstep

/-- A push that finds no room ends the worker. -/
theorem overflow_ok (h : WorkersOk s) {site : SpawnSite} {task : K} {spilled : Bool}
    (hpc : (s.loop w).pc = .push site task spilled) : WorkersOk (s.goto w .panicked) := by
  have hself : ¬ Counted (s.loop w) := by
    -- A worker that is searching pushes only while it parks.
    rintro ⟨hsearching, hparking⟩
    rw [hpc] at hparking
    have hpark : inPark site = false := hparking
    have hfalse := h.loops w false (by simp [hpc, expects, hpark])
    rw [hsearching] at hfalse
    cases hfalse
  exact h.moves rfl rfl (h.count.update_same (iff_of_false hself nofun)) nofun (fun _ _ => id) nofun
    fun _ => attended_of_onDuty rfl trivial

/-! ### The steps of a thread outside -/

variable [DecidableEq O]

/-- A thread outside moves, and the workers and their queues stay. -/
theorem WorkersOk.outside (h : WorkersOk s) {o : O} {pc : OutsidePc n} (hloop : s'.loop = s.loop)
    (hnum : s'.numOfSearchingWorkers = s.numOfSearchingWorkers) (hqueue : s'.queue = s.queue)
    (hout : s'.outside = Function.update s.outside o pc)
    (htargets : ∀ spawned, pc ≠ .unpark spawned [])
    (hattended : s'.global ≠ [] → Attended s') : WorkersOk s' where
  count := by
    rw [hloop, hnum]
    exact h.count
  loops := by
    rw [hloop]
    exact h.loops
  queues := by
    rw [hloop, hqueue]
    exact h.queues
  targets := by
    rw [hout, forall_update_iff s.outside fun _ pc => ∀ spawned, pc ≠ .unpark spawned []]
    exact ⟨htargets, fun o' _ => h.targets o'⟩
  attended := hattended

theorem attended_of_spawning {o : O} {pc : OutsidePc n}
    (hout : s'.outside = Function.update s.outside o pc) (h : Spawning pc) : Attended s' := by
  refine Or.inr (Or.inr ⟨o, ?_⟩)
  rwa [hout, update_self]

/-- A thread that has pushed nothing moves. -/
theorem Attended.outside (h : Attended s) {o : O} {pc : OutsidePc n}
    (hloop : s'.loop = s.loop) (hstate : s'.state = s.state)
    (hout : s'.outside = Function.update s.outside o pc)
    (hspawning : Spawning (s.outside o) → Spawning pc) : Attended s' := by
  rcases h with hduty | hnotified | ⟨o', hspawns⟩
  · exact Or.inl (by rwa [hloop])
  · exact Or.inr (Or.inl (by rwa [hstate]))
  · refine Or.inr (Or.inr ⟨o', ?_⟩)
    by_cases ho : o' = o
    · subst ho
      rw [hout, update_self]
      exact hspawning hspawns
    · rwa [hout, update_of_ne ho]

/-- A spawn keeps its obligation until it has notified a worker. -/
theorem stepOutside_ok (hn : 0 < n) (h : WorkersOk s) {o : O} (hstep : s.stepOutside o = some s') :
    WorkersOk s' := by
  unfold stepOutside at hstep
  split at hstep
  · rename_i hpc
    have hnone : ¬ Spawning (s.outside o) := by rw [hpc]; exact id
    split at hstep <;> cases hstep <;>
      exact h.outside rfl rfl rfl rfl nofun fun hne =>
        (h.attended hne).outside rfl rfl rfl (absurd · hnone)
  · -- The thread picks whom to unpark and keeps the duty meanwhile.
    rename_i spawned hpc
    split at hstep
    · obtain ⟨parked, hparked⟩ := pickTargets_frame s none
      have hpicked := pickTargets_ne_nil hn s none
      simp only [hparked] at hstep
      cases hstep
      refine h.outside rfl rfl rfl rfl (fun spawned' heq => ?_) fun hne => ?_
      · injection heq with _ htargets
        exact hpicked htargets
      · refine (h.attended hne).outside rfl rfl rfl fun hspawning => ?_
        rwa [hpc] at hspawning
    · cases hstep
  · -- The worker that was unparked has the duty now.
    rename_i spawned target targets hpc
    cases hstep
    refine h.outside rfl rfl rfl rfl (fun spawned' heq => ?_) fun _ => ?_
    · split at heq
      · cases heq
      · rename_i hmore
        cases heq
        exact hmore rfl
    · refine Or.inr (Or.inl ⟨target, ?_⟩)
      exact update_self target _ s.state
  · rename_i spawned hpc
    exact absurd hpc (h.targets o spawned)
  all_goals cases hstep

/-! ### Runs -/

/-- Every step keeps the invariant. -/
theorem asyncStep_ok (hn : 0 < n) (h : WorkersOk s) {a : AsyncAction n K O}
    (hstep : s.step a = some s') : WorkersOk s' := by
  cases a with
  | advance w => exact advance_ok hn h hstep
  | spawn w task =>
      simp only [step] at hstep
      split at hstep <;> cases hstep
      rename_i site hpc
      exact Goes.wakes ⟨hpc, rfl, rfl, rfl⟩ h ⟨rfl, fun _ => id⟩ rfl nofun trivial
  | spill w k =>
      simp only [step] at hstep
      split at hstep
      · rename_i site task hpc
        split at hstep <;> cases hstep
        exact Goes.writes ⟨hpc, rfl, rfl, rfl⟩ h ⟨rfl, fun _ => id⟩ (setQueue_other _) nofun trivial
      · cases hstep
  | overflow w =>
      simp only [step] at hstep
      split at hstep <;> cases hstep
      rename_i hpc
      exact overflow_ok h hpc
  | search w start => exact search_ok h hstep
  | steal w k => exact steal_ok h hstep
  | park w time => exact park_ok h hstep
  | elapsed w =>
      simp only [step] at hstep
      split at hstep <;> cases hstep
      rename_i hpc
      exact Goes.wakes ⟨hpc, rfl, rfl, rfl⟩ h ⟨rfl, nofun⟩ rfl nofun trivial
  | returns w =>
      simp only [step] at hstep
      split at hstep <;> cases hstep <;> rename_i hpc
      · exact Goes.wakes ⟨hpc, rfl, rfl, rfl⟩ h ⟨rfl, nofun⟩ rfl nofun trivial
      all_goals
        exact Goes.sleeps ⟨hpc, rfl, rfl, rfl⟩ h ⟨rfl, nofun⟩ rfl rfl trivial id fun _ => id
  | spawnOutside o task =>
      simp only [step] at hstep
      split at hstep
      · rename_i hidle
        have hnone : ¬ Spawning (s.outside o) := by rw [hidle]; exact id
        split at hstep <;> cases hstep
        · exact h.outside rfl rfl rfl rfl nofun fun hne =>
            (h.attended hne).outside rfl rfl rfl (absurd · hnone)
        · exact h.outside rfl rfl rfl rfl nofun fun _ => attended_of_spawning rfl rfl
      · cases hstep
  | unparkSome o =>
      simp only [step] at hstep
      split at hstep <;> cases hstep
      rename_i hidle
      have hnone : ¬ Spawning (s.outside o) := by rw [hidle]; exact id
      exact h.outside rfl rfl rfl rfl nofun fun hne =>
        (h.attended hne).outside rfl rfl rfl (absurd · hnone)
  | outside o => exact stepOutside_ok hn h hstep

theorem workersOk_of_reaches (hn : 0 < n) (localCapacity globalCapacity : Nat)
    (hrun : Reaches AsyncWorkers.step anyStep (AsyncWorkers.new localCapacity globalCapacity) s) :
    WorkersOk s :=
  hrun.invariant (workersOk_new localCapacity globalCapacity) fun _ _ _ h _ hstep =>
    asyncStep_ok hn h hstep

/-- In every state of every run in which all workers are blocked without a notification, and no
thread outside is between its push and the end of its notification, all queues are empty. -/
theorem queued_work_not_stranded (hn : 0 < n) (localCapacity globalCapacity : Nat)
    (hrun : Reaches AsyncWorkers.step anyStep (AsyncWorkers.new localCapacity globalCapacity) s)
    (hblocked : ∀ w, (∃ mode, (s.loop w).pc = .blocked mode) ∧ s.state w ≠ .notified)
    (hspawn : ∀ o, ¬ Spawning (s.outside o)) : s.global = [] ∧ ∀ w, (s.queue w).items = [] := by
  have hok := workersOk_of_reaches hn localCapacity globalCapacity hrun
  constructor
  · by_contra hne
    -- Nobody is left who has the duty.
    rcases hok.attended hne with ⟨w, hduty⟩ | ⟨w, hnotified⟩ | ⟨o, hspawning⟩
    · obtain ⟨⟨mode, hpc⟩, -⟩ := hblocked w
      rw [OnDuty, hpc] at hduty
      exact hduty
    · exact (hblocked w).2 hnotified
    · exact hspawn o hspawning
  · intro w
    obtain ⟨⟨mode, hpc⟩, -⟩ := hblocked w
    exact hok.queues w (by rw [hpc]; trivial)

/-- A single worker finds its own queue empty and looks at the global queue. -/
def seek (w : Fin n) : List (AsyncAction n K O) :=
  List.replicate 4 (AsyncAction.advance w) ++ [AsyncAction.search w 0, .steal w 0] ++
    List.replicate 5 (AsyncAction.advance w)

/-- It goes on to sleep, up to the exchange of `park_pre_stage`. -/
def lieDown (w : Fin n) : List (AsyncAction n K O) :=
  List.replicate 6 (AsyncAction.advance w) ++ [AsyncAction.park w .forever]

/-- A task is spawned from outside and the worker is unparked. The worker runs the task and goes to
sleep at the second attempt: the first one finds the notification. -/
theorem queued_work_not_stranded_once :
    ∃ s : AsyncWorkers 1 Nat (Fin 1),
      Reaches AsyncWorkers.step anyStep (AsyncWorkers.new 4 4) s ∧ (s.queue 0).pushed = [7] ∧
      s.state 0 = .sleepingIo ∧ s.global = [] ∧ ∀ w, (s.queue w).items = [] := by
  obtain ⟨s, hrun, hpushed, hpcs, hstates, houtside⟩ :
      ∃ s : AsyncWorkers 1 Nat (Fin 1),
        Reaches AsyncWorkers.step anyStep (AsyncWorkers.new 4 4) s ∧ (s.queue 0).pushed = [7] ∧
        (∀ w, (s.loop w).pc = .blocked .io) ∧ (∀ w, s.state w = .sleepingIo) ∧
        ∀ o, s.outside o = .idle :=
    exists_reaches
      ([AsyncAction.spawnOutside 0 7, .outside 0, .outside 0] ++
        seek 0 ++ List.replicate 7 (AsyncAction.advance 0) ++
        seek 0 ++ lieDown 0 ++ List.replicate 4 (AsyncAction.advance 0) ++
        seek 0 ++ lieDown 0 ++ [AsyncAction.advance 0]) (by decide +kernel)
  refine ⟨s, hrun, hpushed, hstates 0, ?_⟩
  refine queued_work_not_stranded Nat.one_pos 4 4 hrun (fun w => ⟨⟨.io, hpcs w⟩, ?_⟩) fun o => ?_
  · rw [hstates w]
    nofun
  · rw [houtside o]
    exact id

end Kyron.Proofs.Scheduler
