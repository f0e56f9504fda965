import Kyron.Proofs.Scheduler.Interactor

/-!
# `Kyron.Proofs.Scheduler.Unpark`: a notification is not lost between two parks

The runs of `Interactor` in which no stop is requested. `WordAt` says which words the worker can
find in each of its places, so a notification that is in the word says where the worker is not.

`Watched` follows one notification: an `unpark` that finds `EXECUTING` leaves `NOTIFIED` in the
word, the worker takes it out in some `park`, and that `park` returns. Until then the worker is on
a way that does not block. `stepsToReturn` counts the steps on that way.

* `unpark_not_lost`: a worker that waits with `NOTIFIED` in its word has been woken or is about to
  be, and a worker that was notified while it was executing does not wait before the notification
  is consumed.
-/

set_option autoImplicit false

namespace Kyron.Proofs.Scheduler

open Kyron.Lib
open Kyron.Scheduler
open Interactor

variable {U : Type}

/-! ### The words in the places of the worker -/

/-- The words that the worker can find in its word when nobody asks it to stop. -/
def WordAt : RunPc → WorkerWord → Prop
  | .run, word | .busy, word | .lock _, word | .preStage _, word | .unlock, word
  | .move false, word => word = .executing ∨ word = .notified
  | .rearm, word => word = .notified
  | .cvCheck _, word | .cvSleep _, word | .cvWait _, word | .cvLock _, word =>
      word = .sleepingCv ∨ word = .notified
  | .ioUnlock, word | .ioWait, word | .ioLock, word => word = .sleepingIo ∨ word = .notified
  | .move true, word => word = .sleepingCv ∨ word = .sleepingIo ∨ word = .notified
  | .putBack _, _ | .stopped, _ | .failed, _ => False

/-- What the worker does to its place and to the word when nobody asks it to stop. -/
inductive Turn : RunPc → WorkerWord → RunPc → WorkerWord → Prop
  | run {word : WorkerWord} : Turn .run word .busy word
  | again {word : WorkerWord} : Turn .busy word .run word
  | park {word : WorkerWord} {mode : ParkMode} : Turn .busy word (.lock mode) word
  | parkZero {word : WorkerWord} : Turn .busy word (.move false) word
  | lock {word : WorkerWord} {mode : ParkMode} : Turn (.lock mode) word (.preStage mode) word
  | markCv {mode : ParkMode} {timed : Bool} :
      Turn (.preStage mode) .executing (.cvCheck timed) .sleepingCv
  | markIo {mode : ParkMode} : Turn (.preStage mode) .executing .ioUnlock .sleepingIo
  | found {mode : ParkMode} : Turn (.preStage mode) .notified .rearm .notified
  | rearm {word : WorkerWord} : Turn .rearm word .unlock .executing
  | unlock {word : WorkerWord} : Turn .unlock word .run word
  | check {timed : Bool} : Turn (.cvCheck timed) .notified .unlock .executing
  | checkSleep {timed : Bool} {word : WorkerWord} : Turn (.cvCheck timed) word (.cvSleep timed) word
  | sleep {timed : Bool} {word : WorkerWord} : Turn (.cvSleep timed) word (.cvWait timed) word
  | elapsed {word : WorkerWord} : Turn (.cvSleep true) word (.move true) word
  | cvReturns {timed : Bool} {word : WorkerWord} : Turn (.cvWait timed) word (.cvLock timed) word
  | cvLock {timed : Bool} {word : WorkerWord} : Turn (.cvLock timed) word (.cvCheck timed) word
  | ioUnlock {word : WorkerWord} : Turn .ioUnlock word .ioWait word
  | ioReturns {word : WorkerWord} : Turn .ioWait word .ioLock word
  | ioLock {word : WorkerWord} : Turn .ioLock word (.move true) word
  | move {locked : Bool} {word : WorkerWord} :
      Turn (.move locked) word (Interactor.afterMove locked) .executing

section Turns

variable {pc pc' : RunPc} {word word' : WorkerWord}

theorem WordAt.ne_shuttingDown (h : WordAt pc word) : word ≠ .shuttingDown := by
  rintro rfl
  cases pc with
  | move locked => cases locked <;> simp [WordAt] at h
  | _ => simp [WordAt] at h

/-- An `unpark` swaps `NOTIFIED` in, and every place of the worker allows that. -/
theorem WordAt.notified (h : WordAt pc word) : WordAt pc .notified := by
  cases pc with
  | move locked => cases locked <;> simp [WordAt]
  | putBack | stopped | failed => exact h.elim
  | _ => simp [WordAt]

theorem WordAt.turn (h : WordAt pc word) (hturn : Turn pc word pc' word') : WordAt pc' word' := by
  cases hturn with
  | elapsed | ioLock => rcases h with rfl | rfl <;> simp [WordAt]
  | move => cases ‹Bool› <;> exact Or.inl rfl
  | check | rearm => exact Or.inl rfl
  | markCv | markIo => exact Or.inl rfl
  | found => rfl
  | _ => exact h

end Turns

/-- Who holds the mutex is in a place that holds it. -/
def MtxHeld (s : Interactor U) : Prop :=
  match s.mtx with
  | none => True
  | some .worker => HoldsMtx s.worker
  | some .stop => False
  | some (.unpark u) => s.unparks u = .sync

section Steps

variable {s s' : Interactor U}

/-- The worker takes a turn. -/
structure WorkerTurn (s s' : Interactor U) : Prop where
  turn : Turn s.worker s.word s'.worker s'.word
  unparks : s'.unparks = s.unparks
  stop : s'.stop = s.stop
  mtx : s'.mtx = none ∨ s'.mtx = some .worker ∧ HoldsMtx s'.worker ∨
    s'.mtx = s.mtx ∧ (HoldsMtx s.worker → HoldsMtx s'.worker)

theorem lockWorker_turn {pc : RunPc} (hstep : s.lockWorker pc = some s')
    (hturn : Turn s.worker s.word pc s.word) (hholds : HoldsMtx pc) : WorkerTurn s s' := by
  obtain ⟨-, rfl⟩ := Option.ite_some_none_eq_some.mp hstep
  exact ⟨hturn, rfl, rfl, Or.inr (Or.inl ⟨rfl, hholds⟩)⟩

theorem parkPreStage_turn {mode : ParkMode} (h : WordAt s.worker s.word)
    (hpc : s.worker = .preStage mode) : WorkerTurn s (s.parkPreStage mode) := by
  rw [hpc] at h
  unfold parkPreStage
  rcases h with hword | hword
  · rw [hword]
    cases mode with
    | cv | cvTimeout =>
        refine ⟨?_, rfl, rfl, Or.inr (Or.inr ⟨rfl, fun _ => trivial⟩)⟩
        rw [hpc, hword]
        exact .markCv
    | io =>
        refine ⟨?_, rfl, rfl, Or.inr (Or.inr ⟨rfl, fun _ => trivial⟩)⟩
        rw [hpc, hword]
        exact .markIo
  · rw [hword]
    refine ⟨?_, rfl, rfl, Or.inr (Or.inr ⟨rfl, fun _ => trivial⟩)⟩
    rw [hpc, hword]
    exact .found

theorem parkConditionCheckAndTransition_turn {timed : Bool} (hpc : s.worker = .cvCheck timed)
    (h : WordAt s.worker s.word) : WorkerTurn s (s.parkConditionCheckAndTransition timed) := by
  rw [hpc] at h
  unfold parkConditionCheckAndTransition
  rcases h with hword | hword
  · rw [hword]
    refine ⟨?_, rfl, rfl, Or.inr (Or.inr ⟨rfl, fun _ => trivial⟩)⟩
    rw [hpc, hword]
    exact .checkSleep
  · rw [hword]
    refine ⟨?_, rfl, rfl, Or.inr (Or.inr ⟨rfl, fun _ => trivial⟩)⟩
    rw [hpc, hword]
    exact .check

theorem moveToExecuting_turn {locked : Bool} (hpc : s.worker = .move locked)
    (h : WordAt s.worker s.word) : WorkerTurn s (s.moveToExecuting locked) := by
  unfold moveToExecuting
  rw [if_neg h.ne_shuttingDown]
  refine ⟨?_, rfl, rfl, Or.inr (Or.inr ⟨rfl, fun hholds => ?_⟩)⟩
  · rw [hpc]
    exact .move
  · rw [hpc] at hholds
    cases locked with
    | true => trivial
    | false => exact hholds.elim

/-- One case for each place of the worker. -/
theorem stepWorker_turn (h : WordAt s.worker s.word) (hstep : s.stepWorker = some s') :
    WorkerTurn s s' := by
  unfold stepWorker at hstep
  split at hstep
  · -- run
    rename_i hpc
    rw [if_neg h.ne_shuttingDown] at hstep
    cases hstep
    exact ⟨by rw [hpc]; exact .run, rfl, rfl, Or.inr (Or.inr ⟨rfl, by rw [hpc]; exact id⟩)⟩
  · -- lock
    rename_i mode hpc
    exact lockWorker_turn hstep (by rw [hpc]; exact .lock) trivial
  · -- preStage
    rename_i mode hpc
    cases hstep
    exact parkPreStage_turn h hpc
  · -- rearm
    rename_i hpc
    cases hstep
    exact ⟨by rw [hpc]; exact .rearm, rfl, rfl, Or.inr (Or.inr ⟨rfl, fun _ => trivial⟩)⟩
  · -- unlock
    rename_i hpc
    cases hstep
    exact ⟨by rw [hpc]; exact .unlock, rfl, rfl, Or.inl rfl⟩
  · -- cvCheck
    rename_i timed hpc
    cases hstep
    exact parkConditionCheckAndTransition_turn hpc h
  · -- cvSleep
    rename_i timed hpc
    cases hstep
    exact ⟨by rw [hpc]; exact .sleep, rfl, rfl, Or.inl rfl⟩
  · -- cvLock
    rename_i timed hpc
    exact lockWorker_turn hstep (by rw [hpc]; exact .cvLock) trivial
  · -- ioUnlock
    rename_i hpc
    cases hstep
    exact ⟨by rw [hpc]; exact .ioUnlock, rfl, rfl, Or.inl rfl⟩
  · -- ioLock
    rename_i hpc
    exact lockWorker_turn hstep (by rw [hpc]; exact .ioLock) trivial
  · -- move
    rename_i locked hpc
    cases hstep
    exact moveToExecuting_turn hpc h
  · -- putBack
    rename_i locked hpc
    rw [hpc] at h
    exact h.elim
  -- Elsewhere the worker waits.
  all_goals cases hstep

/-- The invariant of the runs without a stop request. -/
structure ParkOk (s : Interactor U) : Prop where
  base : InteractorOk s
  stop : s.stop = .idle
  word : WordAt s.worker s.word
  unparks : ∀ u, s.unparks u ≠ .putBack
  held : MtxHeld s

theorem parkOk_new : ParkOk (Interactor.new : Interactor U) where
  base := interactorOk_new
  stop := rfl
  word := Or.inl rfl
  unparks := fun _ => by simp [new]
  held := trivial

/-- Without a stop request no store comes too late for one. -/
theorem ParkOk.storeInTime (h : ParkOk s) (a : InteractorAction U) : StoreInTime s a := by
  cases a with
  | advance => exact fun _ => h.word.ne_shuttingDown
  | unpark u => exact fun hput => absurd hput (h.unparks u)
  | _ => trivial

variable [DecidableEq U]

/-- A call of `unpark` moves. -/
structure UnparkTurn (u : U) (s s' : Interactor U) : Prop where
  worker : s'.worker = s.worker
  stop : s'.stop = s.stop
  word : s'.word = if s.unparks u = .idle then .notified else s.word
  others : ∀ v, v ≠ u → s'.unparks v = s.unparks v
  putBack : s.word ≠ .shuttingDown → s'.unparks u ≠ .putBack
  mtx : s'.mtx = none ∨ s'.mtx = some (.unpark u) ∧ s'.unparks u = .sync ∨
    s'.mtx = s.mtx ∧ s.unparks u ≠ .sync

/-- Only the first step of `unpark` changes the word, as nothing is put back. -/
theorem stepUnpark_turn {u : U} (hput : s.unparks u ≠ .putBack)
    (hstep : s.stepUnpark u = some s') : UnparkTurn u s s' := by
  have hothers : ∀ {pc : UnparkPc} (v : U), v ≠ u →
      Function.update s.unparks u pc v = s.unparks v :=
    fun v hv => Function.update_of_ne hv ..
  have hself : ∀ {pc : UnparkPc}, Function.update s.unparks u pc u = pc := Function.update_self ..
  unfold stepUnpark at hstep
  split at hstep
  · -- idle
    rename_i hpc
    cases hstep
    refine ⟨rfl, rfl, by rw [if_pos hpc]; rfl, hothers, fun hdown => ?_,
      Or.inr (Or.inr ⟨rfl, by simp [hpc]⟩)⟩
    show Function.update s.unparks u _ u ≠ .putBack
    rw [hself]
    cases hword : s.word with
    | shuttingDown => exact absurd hword hdown
    | _ => simp [afterSwap]
  · -- lock
    rename_i hpc
    obtain ⟨-, rfl⟩ := Option.ite_some_none_eq_some.mp hstep
    exact ⟨rfl, rfl, by simp [setUnpark, hpc], hothers,
      by simp [setUnpark], Or.inr (Or.inl ⟨rfl, hself⟩)⟩
  · -- sync
    rename_i hpc
    cases hstep
    exact ⟨rfl, rfl, by simp [setUnpark, hpc], hothers,
      by simp [setUnpark], Or.inl rfl⟩
  · -- notify
    rename_i hpc
    cases hstep
    rcases notifyOne_cases s with ⟨timed, -, hwoken⟩ | ⟨-, hsame⟩
    · rw [hwoken]
      exact ⟨rfl, rfl, by simp [setUnpark, hpc], hothers,
        by simp [setUnpark], Or.inr (Or.inr ⟨rfl, by simp [hpc]⟩)⟩
    · rw [hsame]
      exact ⟨rfl, rfl, by simp [setUnpark, hpc], hothers,
        by simp [setUnpark], Or.inr (Or.inr ⟨rfl, by simp [hpc]⟩)⟩
  · -- ioUnpark
    rename_i hpc
    cases hstep
    exact ⟨rfl, rfl, by simp [setUnpark, hpc], hothers,
      by simp [setUnpark], Or.inr (Or.inr ⟨rfl, by simp [hpc]⟩)⟩
  · -- putBack
    rename_i hpc
    exact absurd hpc hput

/-- What a step does when nobody asks the worker to stop. -/
inductive Unstopped (s : Interactor U) : InteractorAction U → Interactor U → Prop
  | worker {a : InteractorAction U} {s' : Interactor U} (hact : ∀ u, a ≠ .unpark u)
      (hturn : WorkerTurn s s') : Unstopped s a s'
  | unpark {u : U} {s' : Interactor U} (hturn : UnparkTurn u s s') : Unstopped s (.unpark u) s'

/-- Without a stop each step is a turn of the worker or of one call. -/
theorem ParkOk.unstopped (h : ParkOk s) {a : InteractorAction U} (hact : a ≠ .stop)
    (hstep : s.step a = some s') : Unstopped s a s' := by
  cases a with
  | again =>
      obtain ⟨hpc, rfl⟩ := Option.ite_some_none_eq_some.mp hstep
      exact .worker (by simp) ⟨by rw [hpc]; exact .again, rfl, rfl,
        Or.inr (Or.inr ⟨rfl, by rw [hpc]; exact id⟩)⟩
  | park mode =>
      obtain ⟨hpc, hstep⟩ := Option.ite_none_right_eq_some.mp hstep
      cases mode with
      | none =>
          cases hstep
          exact .worker (by simp) ⟨by rw [hpc]; exact .parkZero, rfl, rfl,
            Or.inr (Or.inr ⟨rfl, by rw [hpc]; exact id⟩)⟩
      | some mode =>
          cases hstep
          exact .worker (by simp) ⟨by rw [hpc]; exact .park, rfl, rfl,
            Or.inr (Or.inr ⟨rfl, by rw [hpc]; exact id⟩)⟩
  | advance => exact .worker (by simp) (stepWorker_turn h.word hstep)
  | elapsed =>
      simp only [step] at hstep
      split at hstep
      · rename_i hpc
        cases hstep
        exact .worker (by simp) ⟨by rw [hpc]; exact .elapsed, rfl, rfl,
          Or.inr (Or.inr ⟨rfl, fun _ => trivial⟩)⟩
      · cases hstep
  | cvReturns =>
      simp only [step] at hstep
      split at hstep
      · rename_i timed hpc
        cases hstep
        exact .worker (by simp) ⟨by rw [hpc]; exact .cvReturns, rfl, rfl,
          Or.inr (Or.inr ⟨rfl, by rw [hpc]; exact id⟩)⟩
      · cases hstep
  | ioReturns =>
      obtain ⟨hpc, rfl⟩ := Option.ite_some_none_eq_some.mp hstep
      exact .worker (by simp) ⟨by rw [hpc]; exact .ioReturns, rfl, rfl,
        Or.inr (Or.inr ⟨rfl, by rw [hpc]; exact id⟩)⟩
  | stop => exact absurd rfl hact
  | unpark u => exact .unpark (stepUnpark_turn (h.unparks u) hstep)

theorem ParkOk.step (h : ParkOk s) {a : InteractorAction U} (hact : a ≠ .stop)
    (hstep : s.step a = some s') : ParkOk s' := by
  have hbase := interactorStep_ok h.base (h.storeInTime a) hstep
  have hheld := h.held
  cases h.unstopped hact hstep with
  | worker _ hturn =>
      refine ⟨hbase, hturn.stop.trans h.stop, h.word.turn hturn.turn, ?_, ?_⟩
      · rw [hturn.unparks]
        exact h.unparks
      · unfold MtxHeld
        rcases hturn.mtx with hfree | ⟨hown, hholds⟩ | ⟨hsame, hholds⟩
        · rw [hfree]
          trivial
        · rw [hown]
          exact hholds
        · unfold MtxHeld at hheld
          rw [hsame, hturn.unparks]
          split at hheld
          · trivial
          · exact hholds hheld
          · exact hheld
          · exact hheld
  | @unpark u _ hturn =>
      refine ⟨hbase, hturn.stop.trans h.stop, ?_, fun v => ?_, ?_⟩
      · rw [hturn.worker, hturn.word]
        split
        · exact h.word.notified
        · exact h.word
      · by_cases hv : v = u
        · rw [hv]
          exact hturn.putBack h.word.ne_shuttingDown
        · rw [hturn.others v hv]
          exact h.unparks v
      · unfold MtxHeld
        rcases hturn.mtx with hfree | ⟨hown, hsync⟩ | ⟨hsame, hout⟩
        · rw [hfree]
          trivial
        · rw [hown]
          exact hsync
        · unfold MtxHeld at hheld
          rw [hsame, hturn.worker]
          split at hheld
          · trivial
          · exact hheld
          · exact hheld
          · rename_i v _
            have hv : v ≠ u := by
              rintro rfl
              exact hout hheld
            exact (hturn.others v hv).trans hheld

end Steps

/-! ### One notification -/

/-- Where the notification of an `unpark` that found `EXECUTING` is. -/
inductive Notice
  | nothing
  /-- In the word. -/
  | inWord
  /-- Taken out of the word by a `park` that has not returned yet. -/
  | taken
  deriving DecidableEq, Repr

/-- The worker and the last notification that found it executing. -/
structure Watched (U : Type) where
  sys : Interactor U
  owed : Notice

/-- The steps of the worker until `park` has returned, where it is on a way that does not block. -/
def stepsToReturn : RunPc → Option Nat
  | .run | .busy => some 0
  | .unlock | .move false => some 1
  | .rearm => some 2
  | .preStage _ => some 3
  | .lock _ => some 4
  | _ => none

namespace Watched

variable [DecidableEq U]

def new : Watched U where
  sys := .new
  owed := .nothing

/-- The step is the swap of an `unpark` that finds `EXECUTING`. -/
def findsExecuting (s : Interactor U) : InteractorAction U → Bool
  | .unpark u => s.unparks u == .idle && s.word == .executing
  | _ => false

/-- Where the notification is after a step to `s'`. -/
def follow (w : Watched U) (a : InteractorAction U) (s' : Interactor U) : Notice :=
  if findsExecuting w.sys a then .inWord
  else
    match w.owed with
    | .nothing => .nothing
    | .inWord =>
        if s'.word = .notified then .inWord
        -- The `park` that took it is over, or still has to give the mutex back.
        else if s'.worker = .run then .nothing
        else .taken
    | .taken => if s'.worker = .run then .nothing else .taken

def step (w : Watched U) (a : InteractorAction U) : Option (Watched U) :=
  (w.sys.step a).map fun s' => { sys := s', owed := w.follow a s' }

end Watched

section Way

variable {pc pc' : RunPc} {word word' : WorkerWord}

/-- An executing worker is on the way that does not block. -/
theorem stepsToReturn_of_executing (h : WordAt pc .executing) : (stepsToReturn pc).isSome := by
  cases pc with
  | move locked =>
      cases locked with
      | true => simp [WordAt] at h
      | false => rfl
  | run | busy | lock | preStage | unlock => rfl
  | _ => simp [WordAt] at h

/-- With a notification in the word the worker stays on that way until it takes it out. -/
theorem Turn.onWay (h : Turn pc .notified pc' word') (hway : (stepsToReturn pc).isSome) :
    word' = .notified ∧ (stepsToReturn pc').isSome ∨
      word' = .executing ∧ (pc' = .run ∨ pc' = .unlock) := by
  cases h with
  | @move locked =>
      cases locked with
      | true => cases hway
      | false => exact Or.inr ⟨rfl, Or.inl rfl⟩
  | rearm => exact Or.inr ⟨rfl, Or.inr rfl⟩
  | run | again | park | parkZero | lock | found | unlock => exact Or.inl ⟨rfl, rfl⟩
  | _ => cases hway

/-- Every step of the worker in `park` brings its return nearer. -/
theorem Turn.nearer (h : Turn pc .notified pc' word') {k : Nat}
    (hway : stepsToReturn pc = some k) (hpos : 0 < k) : stepsToReturn pc' = some (k - 1) := by
  cases h with
  | @move locked =>
      cases locked <;> cases hway
      rfl
  | run | again | park | parkZero =>
      cases hway
      exact absurd hpos (Nat.lt_irrefl 0)
  | lock | found | rearm | unlock =>
      cases hway
      rfl
  | _ => cases hway

theorem Turn.of_unlock (h : Turn .unlock word pc' word') : pc' = .run := by
  cases h
  rfl

/-- A worker on the way that does not block can make its next step, unless an `unpark` holds the
mutex for a moment. -/
theorem stepWorker_onWay {s : Interactor U} (h : ParkOk s) {k : Nat}
    (hway : stepsToReturn s.worker = some k) (hpos : 0 < k) :
    (∃ u, s.unparks u = .sync) ∨ ∃ s', s.stepWorker = some s' := by
  unfold stepWorker
  cases hpc : s.worker with
  | lock mode =>
      cases hmtx : s.mtx with
      | none => exact Or.inr ⟨_, if_pos hmtx⟩
      | some holder =>
          have hheld := h.held
          rw [MtxHeld, hmtx] at hheld
          cases holder with
          | unpark u => exact Or.inl ⟨u, hheld⟩
          | stop => exact hheld.elim
          | worker =>
              rw [hpc] at hheld
              exact hheld.elim
  | preStage mode => exact Or.inr ⟨_, rfl⟩
  | rearm | unlock => exact Or.inr ⟨_, rfl⟩
  | move locked => exact Or.inr ⟨_, rfl⟩
  | run | busy =>
      rw [hpc] at hway
      cases hway
      exact absurd hpos (Nat.lt_irrefl 0)
  | _ =>
      rw [hpc] at hway
      cases hway

end Way

section Watch

variable {w : Watched U}

/-- The worker is on the way that does not block until it has consumed the notification. -/
def NoticeOk (w : Watched U) : Prop :=
  match w.owed with
  | .nothing => True
  | .inWord => w.sys.word = .notified ∧ (stepsToReturn w.sys.worker).isSome
  | .taken => w.sys.word = .executing ∧ w.sys.worker = .unlock

/-- A worker that is owed a return gets there step by step. -/
theorem NoticeOk.returns (h : NoticeOk w) (hpark : ParkOk w.sys) (howed : w.owed ≠ .nothing) :
    ∃ k, stepsToReturn w.sys.worker = some k ∧
      (0 < k → (∃ u, w.sys.unparks u = .sync) ∨
        ∃ s', w.sys.stepWorker = some s' ∧ stepsToReturn s'.worker = some (k - 1)) := by
  unfold NoticeOk at h
  split at h
  · rename_i hnothing
    exact absurd hnothing howed
  · obtain ⟨hword, hway⟩ := h
    obtain ⟨k, hk⟩ := Option.isSome_iff_exists.mp hway
    refine ⟨k, hk, fun hpos => (stepWorker_onWay hpark hk hpos).imp_right ?_⟩
    rintro ⟨s', hstep⟩
    have hturn := (stepWorker_turn hpark.word hstep).turn
    rw [hword] at hturn
    exact ⟨s', hstep, hturn.nearer hk hpos⟩
  · obtain ⟨-, hplace⟩ := h
    refine ⟨1, by rw [hplace]; rfl, fun _ => Or.inr ?_⟩
    unfold stepWorker
    rw [hplace]
    exact ⟨_, rfl, rfl⟩

variable [DecidableEq U]

/-- Nobody asks the worker to stop. -/
def NoStop (_ : Watched U) (a : InteractorAction U) : Prop := a ≠ .stop

instance (w : Watched U) (a : InteractorAction U) : Decidable (NoStop w a) :=
  inferInstanceAs (Decidable (_ ≠ _))

theorem NoticeOk.step (h : NoticeOk w) (hpark : ParkOk w.sys) {a : InteractorAction U}
    (hact : a ≠ .stop) {s' : Interactor U} (hstep : w.sys.step a = some s') :
    NoticeOk { sys := s', owed := w.follow a s' } := by
  cases hpark.unstopped hact hstep with
  | worker hnot hturn =>
      have hfinds : Watched.findsExecuting w.sys a = false := by
        cases a with
        | unpark u => exact absurd rfl (hnot u)
        | _ => rfl
      unfold NoticeOk at h ⊢
      rw [Watched.follow, hfinds, if_neg (by simp)]
      split at h
      · trivial
      · obtain ⟨hword, hway⟩ := h
        have hmove := hturn.turn
        rw [hword] at hmove
        rcases hmove.onWay hway with ⟨hword', hway'⟩ | ⟨hword', hplace⟩
        · rw [if_pos hword']
          exact ⟨hword', hway'⟩
        · rcases hplace with hplace | hplace <;> simp [hword', hplace]
      · -- The worker gives the mutex back, and `park` has returned.
        obtain ⟨-, hplace⟩ := h
        have hmove := hturn.turn
        rw [hplace] at hmove
        rw [if_pos hmove.of_unlock]
        trivial
  | @unpark u _ hturn =>
      unfold NoticeOk at h ⊢
      rw [Watched.follow]
      by_cases hfinds : Watched.findsExecuting w.sys (.unpark u) = true
      · rw [if_pos hfinds]
        simp only [Watched.findsExecuting, Bool.and_eq_true, beq_iff_eq] at hfinds
        have hword := hpark.word
        rw [hfinds.2] at hword
        refine ⟨?_, ?_⟩
        · rw [hturn.word, if_pos hfinds.1]
        · rw [hturn.worker]
          exact stepsToReturn_of_executing hword
      · rw [if_neg hfinds]
        simp only [Watched.findsExecuting, Bool.and_eq_true, beq_iff_eq] at hfinds
        split at h
        · trivial
        · obtain ⟨hword, hway⟩ := h
          have hword' : s'.word = .notified := by
            rw [hturn.word, hword, ite_self]
          rw [if_pos hword', hturn.worker]
          exact ⟨hword', hway⟩
        · obtain ⟨hword, hplace⟩ := h
          have hbusy : w.sys.unparks u ≠ .idle := fun hidle => hfinds ⟨hidle, hword⟩
          rw [hturn.worker, hplace, if_neg (by simp)]
          refine ⟨?_, rfl⟩
          rw [hturn.word, if_neg hbusy, hword]

/-- A worker that waits with a notification in its word has been woken, or some `unpark` is about
to wake it. And after an `unpark` that found it executing, the worker is on a way out of `park`
that does not block, until a `park` that consumed the notification has returned: each of its steps
brings it nearer to the return, and only an `unpark` that is about to release the mutex can hold
it up. -/
theorem unpark_not_lost (hrun : Reaches Watched.step NoStop Watched.new w) :
    (∀ timed, w.sys.worker = .cvWait timed → w.sys.word = .notified →
      w.sys.cvWoken = true ∨ CvPending w.sys) ∧
    (w.sys.worker = .ioWait → w.sys.word = .notified →
      0 < w.sys.ioPipe ∨ ∃ u, w.sys.unparks u = .ioUnpark) ∧
    (w.owed ≠ .nothing → ∃ k, stepsToReturn w.sys.worker = some k ∧
      (0 < k → (∃ u, w.sys.unparks u = .sync) ∨
        ∃ s', w.sys.stepWorker = some s' ∧ stepsToReturn s'.worker = some (k - 1))) := by
  have hok : ParkOk w.sys ∧ NoticeOk w := by
    refine hrun.invariant (I := fun w => ParkOk w.sys ∧ NoticeOk w) ⟨parkOk_new, trivial⟩ ?_
    intro w a w' ⟨hpark, howed⟩ hact hstep
    simp only [Watched.step, Option.map_eq_some_iff] at hstep
    obtain ⟨s', hstep, rfl⟩ := hstep
    exact ⟨hpark.step hact hstep, howed.step hpark hact hstep⟩
  obtain ⟨hpark, howed⟩ := hok
  refine ⟨?_, ?_, ?_⟩
  · intro timed hplace hword
    cases hwoken : w.sys.cvWoken with
    | true => exact Or.inl rfl
    | false =>
        rcases hpark.base.cvOwed timed hplace hwoken with hsleeps | hpending | hstop
        · rw [hword] at hsleeps
          cases hsleeps
        · exact Or.inr hpending
        · rw [hpark.stop] at hstop
          cases hstop
  · intro hplace hword
    rcases Nat.eq_zero_or_pos w.sys.ioPipe with hempty | hbyte
    · rcases hpark.base.ioOwed (Or.inr hplace) hempty with hsleeps | hpending | hstop
      · rw [hword] at hsleeps
        cases hsleeps
      · exact Or.inr hpending
      · rw [hpark.stop] at hstop
        cases hstop
    · exact Or.inl hbyte
  · exact howed.returns hpark

/-- The worker waits on its condition variable, and an `unpark` has taken its sleeping state out
of the word and not notified yet. -/
theorem unpark_not_lost_pending :
    ∃ w : Watched (Fin 1), Reaches Watched.step NoStop .new w ∧
      w.sys.worker = .cvWait false ∧ w.sys.cvWoken = false ∧ CvPending w.sys := by
  have hexists : ∃ w : Watched (Fin 1), Reaches Watched.step NoStop .new w ∧
      w.sys.worker = .cvWait false ∧ w.sys.word = .notified ∧ w.sys.cvWoken = false :=
    exists_reaches (intoWait ++ [InteractorAction.unpark 0]) (by decide)
  obtain ⟨w, hrun, hplace, hword, hwoken⟩ := hexists
  refine ⟨w, hrun, hplace, hwoken, ?_⟩
  refine ((unpark_not_lost hrun).1 false hplace hword).resolve_left fun htrue => ?_
  rw [hwoken] at htrue
  cases htrue

-- A worker that is notified before it parks: it comes out of `park` without a wait.
example :
    ∃ w : Watched (Fin 1), Reaches Watched.step NoStop .new w ∧ w.owed = .nothing ∧
      w.sys.worker = .run ∧ w.sys.word = .executing :=
  exists_reaches
    [InteractorAction.advance, .unpark 0, .park (some .io), .advance, .advance, .advance, .advance]
    (by decide)

end Watch

end Kyron.Proofs.Scheduler
