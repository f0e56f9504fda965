import Kyron.Scheduler.Interactor
import Kyron.Scheduler.Parking

/-!
# `Kyron.Scheduler.AsyncWorkers`: the async workers, their queues and their sleep

The model of the run loop in `scheduler/workers/worker.rs` over `AsyncScheduler` in
`scheduler/scheduler_mt.rs` and the state byte of `WorkerInteractor` in
`scheduler/workers/worker_types.rs`. There are `n` async workers and any number of threads
outside of them, which spawn tasks into the global queue or ask for some worker to be unparked.
Threads interleave at every access to what they share: the queues, the counter of searching
workers, the list of parked workers, the state bytes and the access to the IO driver.

* A queue operation is a step where it takes effect. A steal takes its tasks out of one queue in
  one step and publishes them in another. `fetch_from` reads its own tail, then the length of the
  global queue, and then moves the tasks with the lock of the global queue held. The source keeps
  the queues in rings, in which a fetch that reads its tail during a steal overwrites slots. The
  lists stand for them in the runs without such a fetch
  (`Kyron.Proofs.Scheduler.rings_refine_lists`).
* How many tasks a steal or an overflow moves is left open, and so is whether a push finds room
  in the local queue: both depend on the steals in progress.
* The lock of the list of parked workers is held from the `fetch_sub` of `transition_to_parked`
  to its push. All other accesses to the list are one step.
* The mutex and the condition variable of a worker are left out. The mutex only keeps steps of
  the worker and of its notifiers apart, and a wait may return at any time. An unpark is then the
  swap of the state byte.
* Whether a worker sleeps with a timeout, without one, or not at all is a free choice. So is which
  tasks are woken by the drivers and by a task that runs.
* The counter is an `AtomicU8`. An engine has at most 128 workers, so it does not overflow.
-/

set_option autoImplicit false

namespace Kyron.Scheduler

/-- A local queue: all tasks that were pushed to it, and how many of them were taken out. These are
its `head` and its real tail. -/
structure LocalQueue (K : Type) where
  pushed : List K
  taken : Nat
  deriving DecidableEq, Repr

namespace LocalQueue

variable {K : Type}

def new : LocalQueue K := ⟨[], 0⟩

/-- The tasks in the queue. -/
def items (q : LocalQueue K) : List K := q.pushed.drop q.taken

def push (q : LocalQueue K) (vs : List K) : LocalQueue K := { q with pushed := q.pushed ++ vs }

/-- Takes up to `k` tasks from the front. -/
def take (q : LocalQueue K) (k : Nat) : List K × LocalQueue K :=
  (q.items.take k, { q with taken := q.taken + min k q.items.length })

/-- `count_internal`, for a head and a tail that were read. -/
def count (head tail : Nat) : UInt32 := UInt32.ofNat head - UInt32.ofNat tail

end LocalQueue

/-- `swap_remove`. -/
def swapRemove {α : Type} (l : List α) (i : Nat) : List α :=
  match l.getLast? with
  | some last => (l.set i last).dropLast
  | none => []

/-- The places where a worker wakes tasks and so pushes them. -/
inductive SpawnSite
  /-- `process_work` in `maybe_run_driver`. -/
  | timers
  /-- `process_io` in `maybe_run_driver`, with the access to the IO driver. -/
  | driverIo
  /-- The poll of a task, and the push of a task that was notified meanwhile. -/
  | task
  /-- `process_io` in `park`, with the access to the IO driver. -/
  | parkIo
  /-- `process_timeouts` in the exit guard of `park`. -/
  | parkExit
  deriving DecidableEq, Repr

/-- The places where a worker pops from its own queue. -/
inductive PopSite
  /-- `next_task`. -/
  | next
  /-- `try_steal_work`. -/
  | steal
  /-- `try_take_global_work`. -/
  | global
  deriving DecidableEq, Repr

/-- Who calls `transition_from_parked`. -/
inductive UnlistSite
  /-- The recheck of `park_worker`. -/
  | recheck
  /-- `park_pre_stage`. -/
  | preStage
  /-- `park_condition_check_and_transition` or `move_to_executing`. -/
  | leave
  deriving DecidableEq, Repr

/-- How long `park` is asked to sleep. -/
inductive SleepTime
  | zero
  | timed
  | forever
  deriving DecidableEq, Repr

/-- Where an async worker stands. -/
inductive AsyncPc (n : Nat) (K : Type)
  /-- At the head of the loop. -/
  | run
  /-- At a place where it may wake tasks. -/
  | within (site : SpawnSite)
  /-- In `spawn_from_runtime`, before the push. `spilled` says that `push_to_mpmc` was called. -/
  | push (site : SpawnSite) (task : K) (spilled : Bool)
  /-- In `try_notify_siblings_workers`, before `should_notify_some_worker`. -/
  | notify (site : SpawnSite)
  /-- Before it takes an index from the list of parked workers. -/
  | pick (site : SpawnSite)
  /-- Before it unparks the workers. -/
  | unpark (site : SpawnSite) (targets : List (Fin n))
  /-- In `maybe_run_driver`, before `try_get_access`. -/
  | tryIo
  /-- In `next_task`. -/
  | next
  /-- In `fetch_from`, before the load of the own tail. -/
  | fetchTail (site : PopSite)
  /-- In `fetch_from`, before the length of the global queue is read. -/
  | fetchLen (site : PopSite) (free : Nat)
  /-- In `fetch_from`, before the tasks are moved. -/
  | fetchMove (site : PopSite) (possible : Nat)
  /-- Before the pop. `notify` is what `try_pick_work` returns with the task. -/
  | pop (site : PopSite) (notify : Bool)
  /-- In `try_transition_to_searching`, before the load of the counter. -/
  | searchLoad
  /-- Before the counter is raised. -/
  | searchAdd
  /-- In `try_steal_work`, with the workers left and the number of tasks stolen. -/
  | steal (todo : List (Fin n)) (stolen : Nat)
  /-- With stolen tasks that are not published yet. -/
  | publish (tasks : List K) (todo : List (Fin n)) (stolen : Nat)
  /-- In `run_task`, before `transition_to_executing`. -/
  | execute (notify : Bool)
  /-- Before `transition_to_parked`. -/
  | toParked
  /-- With the lock of the list, before the push. `last` is what the call answers. -/
  | listed (last : Bool)
  /-- The last searching worker, before `is_empty` of the global queue. -/
  | recheckGlobal
  /-- The last searching worker, before the loads of `count` for the workers left. -/
  | recheckHead (todo : List (Fin n))
  | recheckTail (worker : Fin n) (head : Nat) (todo : List (Fin n))
  /-- Before `transition_from_parked`. -/
  | unlist (site : UnlistSite)
  /-- Before the `park` of the drivers. -/
  | park
  /-- Before the exchange of `park_pre_stage`. -/
  | preStage (mode : ParkMode)
  /-- In a `park_pre_stage` that found a notification, before it stores the state. -/
  | rearm
  /-- Before `park_condition_check_and_transition`. -/
  | check (timed : Bool)
  /-- Decided to wait for the condition variable. -/
  | sleep (timed : Bool)
  /-- Waiting for the condition variable, or in `poll` of the IO driver. -/
  | blocked (mode : ParkMode)
  /-- Before the swap of `move_to_executing`. -/
  | move
  /-- The queues were full, and the push panicked. -/
  | panicked
  deriving DecidableEq, Repr

/-- The loop of a worker: its place, whether `local_state` is `Searching`, and `next_task_tick`. -/
structure AsyncLoop (n : Nat) (K : Type) where
  pc : AsyncPc n K
  isSearching : Bool
  tick : UInt64
  deriving DecidableEq, Repr

/-- Where a thread outside of the async workers stands. `spawned` says that it has pushed a task. -/
inductive OutsidePc (n : Nat)
  | idle
  /-- Before `should_notify_some_worker`. -/
  | notify
  /-- Before it takes an index from the list of parked workers. -/
  | pick (spawned : Bool)
  /-- Before it unparks the workers. -/
  | unpark (spawned : Bool) (targets : List (Fin n))
  /-- The global queue was full. -/
  | panicked
  deriving DecidableEq, Repr

/-- The async scheduler with its `n` workers and the threads `O` outside. -/
structure AsyncWorkers (n : Nat) (K O : Type) where
  global : List K
  globalCapacity : Nat
  localCapacity : Nat
  numOfSearchingWorkers : Nat
  parked : List (Fin n)
  parkedLock : Option (Fin n)
  ioAccess : Option (Fin n)
  loop : Fin n → AsyncLoop n K
  state : Fin n → WorkerState
  queue : Fin n → LocalQueue K
  outside : O → OutsidePc n

inductive AsyncAction (n : Nat) (K O : Type)
  /-- A worker makes its next step where it has only one. -/
  | advance (w : Fin n)
  /-- A worker wakes or spawns a task. -/
  | spawn (w : Fin n) (task : K)
  /-- The local queue has no room, and `k` tasks go to the global queue. -/
  | spill (w : Fin n) (k : Nat)
  /-- No queue has room. -/
  | overflow (w : Fin n)
  /-- A worker starts to steal at a random index. -/
  | search (w : Fin n) (start : Nat)
  /-- A worker steals `k` tasks from the next worker, or none. -/
  | steal (w : Fin n) (k : Nat)
  /-- A worker parks. -/
  | park (w : Fin n) (time : SleepTime)
  /-- The timeout of a worker that decided to wait is over. -/
  | elapsed (w : Fin n)
  /-- The wait of a worker returns. -/
  | returns (w : Fin n)
  /-- `spawn_outside_runtime` is called. -/
  | spawnOutside (o : O) (task : K)
  /-- `unpark_some_async_worker` is called. -/
  | unparkSome (o : O)
  /-- A thread outside makes its next step. -/
  | outside (o : O)
  deriving DecidableEq, Repr

namespace AsyncWorkers

variable {n : Nat} {K O : Type} [DecidableEq O]

def new (localCapacity globalCapacity : Nat) : AsyncWorkers n K O where
  global := []
  globalCapacity := globalCapacity
  localCapacity := localCapacity
  numOfSearchingWorkers := 0
  parked := []
  parkedLock := none
  ioAccess := none
  loop := fun _ => ⟨.run, false, 0⟩
  state := fun _ => .executing
  queue := fun _ => .new
  outside := fun _ => .idle

/-- A worker goes on at `pc`. -/
def goto (s : AsyncWorkers n K O) (w : Fin n) (pc : AsyncPc n K) : AsyncWorkers n K O :=
  { s with loop := Function.update s.loop w { s.loop w with pc } }

def setState (s : AsyncWorkers n K O) (w : Fin n) (state : WorkerState) : AsyncWorkers n K O :=
  { s with state := Function.update s.state w state }

def setQueue (s : AsyncWorkers n K O) (w : Fin n) (queue : LocalQueue K) : AsyncWorkers n K O :=
  { s with queue := Function.update s.queue w queue }

/-- The guard of the IO driver is dropped. -/
def releaseIo (s : AsyncWorkers n K O) (w : Fin n) : AsyncWorkers n K O :=
  { s with ioAccess := if s.ioAccess = some w then none else s.ioAccess }

/-- `park_worker` is over, and `run` sets the local state. -/
def leavePark (s : AsyncWorkers n K O) (w : Fin n) : AsyncWorkers n K O :=
  { s with loop := Function.update s.loop w { s.loop w with pc := .run, isSearching := false } }

/-- `try_pick_work` begins: the tick goes up, and every 32nd time the drivers are run. -/
def beginRound (s : AsyncWorkers n K O) (w : Fin n) : AsyncWorkers n K O :=
  let tick := (s.loop w).tick + 1
  let pc := if tick &&& 31 = 0 then .within .timers else .next
  { s with loop := Function.update s.loop w { s.loop w with pc, tick } }

/-- The worker goes on after a place where it wakes tasks. -/
def leaveSite (s : AsyncWorkers n K O) (w : Fin n) : SpawnSite → AsyncWorkers n K O
  | .timers => s.goto w .tryIo
  | .driverIo => (s.releaseIo w).goto w .next
  | .task => s.goto w .run
  | .parkIo => s.goto w .move
  | .parkExit => s.leavePark w

/-- The worker that `try_notify_siblings_worker_unconditional` unparks: the first one in the list
that is not the caller, or all if there is none. -/
def pickTargets (s : AsyncWorkers n K O) (current : Option (Fin n)) :
    List (Fin n) × AsyncWorkers n K O :=
  match s.parked.findIdx? fun w => current ≠ some w with
  | some i => ((s.parked.drop i).take 1, { s with parked := swapRemove s.parked i })
  | none => (List.finRange n, s)

/-- `transition_from_parked`. -/
def transitionFromParked (s : AsyncWorkers n K O) (w : Fin n) : AsyncWorkers n K O :=
  match s.parked.findIdx? fun w' => w' = w with
  | some i => { s with parked := swapRemove s.parked i }
  | none => s

/-- The steps of `spawn_from_runtime` and of the notification of siblings. -/
def stepSpawn (s : AsyncWorkers n K O) (w : Fin n) : Option (AsyncWorkers n K O) :=
  match (s.loop w).pc with
  | .push site task _ =>
      some ((s.setQueue w ((s.queue w).push [task])).goto w (.notify site))
  | .notify site =>
      if s.numOfSearchingWorkers = 0 then some (s.goto w (.pick site))
      else some (s.goto w (.within site))
  | .pick site =>
      if s.parkedLock = none then
        let (targets, s) := s.pickTargets (some w)
        some (s.goto w (.unpark site targets))
      else none
  | .unpark site (target :: targets) =>
      some ((s.setState target .notified).goto w (.unpark site targets))
  | .unpark site [] => some (s.goto w (.within site))
  | _ => none

/-- The steps of `fetch_from` and of the pops. -/
def stepPick (s : AsyncWorkers n K O) (w : Fin n) : Option (AsyncWorkers n K O) :=
  match (s.loop w).pc with
  | .next =>
      if (s.loop w).tick % 16 = 0 then some (s.goto w (.fetchTail .next))
      else some (s.goto w (.pop .next false))
  | .fetchTail site =>
      some (s.goto w (.fetchLen site (s.localCapacity - (s.queue w).items.length)))
  | .fetchLen site free => some (s.goto w (.fetchMove site (min s.global.length free)))
  | .fetchMove site possible =>
      let tasks := s.global.take possible
      let s := { s.setQueue w ((s.queue w).push tasks) with global := s.global.drop possible }
      match site with
      | .next | .steal => some (s.goto w (.pop site (0 < tasks.length)))
      | .global =>
          if 0 < tasks.length then some (s.goto w (.pop .global true))
          else some (s.goto w .toParked)
  | .pop site notify =>
      match (s.queue w).take 1 with
      | (_ :: _, queue) => some ((s.setQueue w queue).goto w (.execute notify))
      | ([], _) =>
          match site with
          | .next => some (s.goto w .searchLoad)
          | .steal => some (s.goto w (.fetchTail .global))
          | .global => some (s.goto w .toParked)
  | .execute notify =>
      let pc := if notify then .notify .task else .within .task
      if (s.loop w).isSearching then
        some { s with
          numOfSearchingWorkers := s.numOfSearchingWorkers - 1
          loop := Function.update s.loop w { s.loop w with pc, isSearching := false } }
      else some (s.goto w pc)
  | _ => none

/-- The steps of a search. No more than half of the workers are to search. -/
def stepSearch (s : AsyncWorkers n K O) (w : Fin n) : Option (AsyncWorkers n K O) :=
  match (s.loop w).pc with
  | .searchLoad =>
      if (s.loop w).isSearching then some (s.goto w .searchAdd)
      else if s.numOfSearchingWorkers * 2 ≥ n then some (s.goto w .toParked)
      else some (s.goto w .searchAdd)
  | .steal [] stolen => some (s.goto w (.pop .steal (0 < stolen)))
  | .publish tasks todo stolen =>
      some ((s.setQueue w ((s.queue w).push tasks)).goto w (.steal todo (stolen + tasks.length)))
  | _ => none

/-- The steps of `park_worker` up to the park. -/
def stepPark (s : AsyncWorkers n K O) (w : Fin n) : Option (AsyncWorkers n K O) :=
  match (s.loop w).pc with
  | .toParked =>
      if s.parkedLock = none then
        let s := { s with parkedLock := some w }
        if (s.loop w).isSearching then
          some ({ s with numOfSearchingWorkers := s.numOfSearchingWorkers - 1 }.goto w
            (.listed (s.numOfSearchingWorkers = 1)))
        else some (s.goto w (.listed false))
      else none
  | .listed last =>
      some ({ s with parked := s.parked ++ [w], parkedLock := none }.goto w
        (if last then .recheckGlobal else .park))
  | .recheckGlobal =>
      if s.global = [] then some (s.goto w (.recheckHead (List.finRange n)))
      else some (s.goto w (.unlist .recheck))
  | .recheckHead [] => some (s.goto w .park)
  | .recheckHead (worker :: todo) =>
      some (s.goto w (.recheckTail worker (s.queue worker).pushed.length todo))
  | .recheckTail worker head todo =>
      if LocalQueue.count head (s.queue worker).taken > 0 then some (s.goto w (.unlist .recheck))
      else some (s.goto w (.recheckHead todo))
  | .unlist site =>
      if s.parkedLock = none then
        let s := s.transitionFromParked w
        match site with
        | .recheck => some (s.leavePark w)
        | .preStage => some (s.goto w .rearm)
        | .leave => some ((s.releaseIo w).goto w (.within .parkExit))
      else none
  | _ => none

/-- The steps of the parker on the state byte. -/
def stepParker (s : AsyncWorkers n K O) (w : Fin n) : Option (AsyncWorkers n K O) :=
  match (s.loop w).pc with
  | .preStage mode =>
      match s.state w with
      | .executing =>
          match mode with
          | .cv => some ((s.setState w .sleepingCv).goto w (.check false))
          | .cvTimeout => some ((s.setState w .sleepingCv).goto w (.check true))
          | .io => some ((s.setState w .sleepingIo).goto w (.blocked .io))
      | .notified => some (s.goto w (.unlist .preStage))
      -- An inconsistent state.
      | .sleepingCv | .sleepingIo => some (s.goto w .panicked)
  | .rearm => some (((s.setState w .executing).releaseIo w).goto w (.within .parkExit))
  | .check timed =>
      if s.state w = .notified then some ((s.setState w .executing).goto w (.unlist .leave))
      else some (s.goto w (.sleep timed))
  | .sleep timed => some (s.goto w (.blocked (if timed then .cvTimeout else .cv)))
  | .move => some ((s.setState w .executing).goto w (.unlist .leave))
  | _ => none

/-- The next step of a worker where it has only one. -/
def advance (s : AsyncWorkers n K O) (w : Fin n) : Option (AsyncWorkers n K O) :=
  match (s.loop w).pc with
  | .run => some (s.beginRound w)
  | .within site => some (s.leaveSite w site)
  | .tryIo =>
      if s.ioAccess = none then some ({ s with ioAccess := some w }.goto w (.within .driverIo))
      else some (s.goto w .next)
  | .push .. | .notify _ | .pick _ | .unpark .. => s.stepSpawn w
  | .next | .fetchTail _ | .fetchLen .. | .fetchMove .. | .pop .. | .execute _ => s.stepPick w
  | .searchLoad | .steal .. | .publish .. => s.stepSearch w
  | .toParked | .listed _ | .recheckGlobal | .recheckHead _ | .recheckTail .. | .unlist _ =>
      s.stepPark w
  | .preStage _ | .rearm | .check _ | .sleep _ | .move => s.stepParker w
  | .searchAdd | .park | .blocked _ | .panicked => none

/-- The counter goes up, and the worker begins at the worker `start` to steal. -/
def search (s : AsyncWorkers n K O) (w : Fin n) (start : Nat) : Option (AsyncWorkers n K O) :=
  match (s.loop w).pc with
  | .searchAdd =>
      let pc := .steal ((List.finRange n).rotate start) 0
      if (s.loop w).isSearching then some (s.goto w pc)
      else
        some { s with
          numOfSearchingWorkers := s.numOfSearchingWorkers + 1
          loop := Function.update s.loop w { s.loop w with pc, isSearching := true } }
  | _ => none

/-- `steal_into` from the next worker. -/
def steal (s : AsyncWorkers n K O) (w : Fin n) (k : Nat) : Option (AsyncWorkers n K O) :=
  match (s.loop w).pc with
  | .steal (worker :: todo) stolen =>
      if worker = w ∨ k = 0 then some (s.goto w (.steal todo stolen))
      else
        let (tasks, queue) := (s.queue worker).take k
        some ((s.setQueue worker queue).goto w (.publish tasks todo stolen))
  | _ => none

/-- `park` of the drivers and of the worker. -/
def park (s : AsyncWorkers n K O) (w : Fin n) (time : SleepTime) : Option (AsyncWorkers n K O) :=
  match (s.loop w).pc with
  | .park =>
      match time with
      | .zero => some (s.goto w .move)
      | .timed | .forever =>
          if s.ioAccess = none then some ({ s with ioAccess := some w }.goto w (.preStage .io))
          else some (s.goto w (.preStage (if time = .timed then .cvTimeout else .cv)))
  | _ => none

/-- The next step of a thread outside. -/
def stepOutside (s : AsyncWorkers n K O) (o : O) : Option (AsyncWorkers n K O) :=
  match s.outside o with
  | .notify =>
      let pc := if s.numOfSearchingWorkers = 0 then .pick false else .idle
      some { s with outside := Function.update s.outside o pc }
  | .pick spawned =>
      if s.parkedLock = none then
        let (targets, s) := s.pickTargets none
        some { s with outside := Function.update s.outside o (.unpark spawned targets) }
      else none
  | .unpark spawned (target :: targets) =>
      let pc := if targets.isEmpty then .idle else .unpark spawned targets
      some { s.setState target .notified with outside := Function.update s.outside o pc }
  | .unpark _ [] => some { s with outside := Function.update s.outside o .idle }
  | .idle | .panicked => none

def step (s : AsyncWorkers n K O) : AsyncAction n K O → Option (AsyncWorkers n K O)
  | .advance w => s.advance w
  | .spawn w task =>
      match (s.loop w).pc with
      | .within site => some (s.goto w (.push site task false))
      | _ => none
  | .spill w k =>
      match (s.loop w).pc with
      | .push site task false =>
          if 0 < k ∧ k ≤ s.globalCapacity - s.global.length then
            let (tasks, queue) := (s.queue w).take k
            some ({ s.setQueue w queue with global := s.global ++ tasks }.goto w
              (.push site task true))
          else none
      | _ => none
  | .overflow w =>
      match (s.loop w).pc with
      | .push .. => some (s.goto w .panicked)
      | _ => none
  | .search w start => s.search w start
  | .steal w k => s.steal w k
  | .park w time => s.park w time
  | .elapsed w =>
      match (s.loop w).pc with
      | .sleep true => some (s.goto w .move)
      | _ => none
  | .returns w =>
      match (s.loop w).pc with
      | .blocked .io => some (s.goto w (.within .parkIo))
      | .blocked .cv => some (s.goto w (.check false))
      | .blocked .cvTimeout => some (s.goto w (.check true))
      | _ => none
  | .spawnOutside o task =>
      if s.outside o = .idle then
        if s.global.length = s.globalCapacity then
          some { s with outside := Function.update s.outside o .panicked }
        else
          some { s with
            global := s.global ++ [task]
            outside := Function.update s.outside o (.pick true) }
      else none
  | .unparkSome o =>
      if s.outside o = .idle then
        some { s with outside := Function.update s.outside o .notify }
      else none
  | .outside o => s.stepOutside o

end AsyncWorkers

end Kyron.Scheduler
