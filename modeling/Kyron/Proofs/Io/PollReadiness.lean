import Kyron.Io.PollReadiness
import Kyron.Lib.Lock
import Kyron.Proofs.Io.AsyncRegistration

/-!
# `Kyron.Proofs.Io.PollReadiness`: a pending poll of a reader or a writer is not forgotten

The readiness word is outside of the lock of the wakers. A poll checks it, takes the lock, checks it
again and stores its waker. A `wake` marks the word first and takes the lock later. So a mark that a
poll does not see comes after its second check, and that `wake` gets the lock only when the waker is
stored.

`MarkedFor d` says that some running `wake` has marked the direction and still has to take its slot.
`DirectionOk` is the invariant of a direction: what is set in the word behind the back of a stored
waker is marked by such a `wake`, and a poll that is about to store its waker has the lock, so that
no `wake` can be at the slots.

* `poll_readiness_not_lost`: a pending waker that has not been woken is in its slot with the
  direction not set, or a running `wake` that has marked the direction will take it, or has taken
  it.
-/

set_option autoImplicit false
set_option linter.unusedSectionVars false

namespace Kyron.Proofs.Io

open Kyron.Io
open Kyron.Lib
open Function
open Registration

variable {F T W : Type}

/-! ### The lock -/

/-- The activity is in the part of its call that has the lock. -/
def callHolds : CallPc F W → Bool
  | .slots _ | .waiters _ _ _ | .registerRecheck _ _ | .registerStore _ _ => true
  | _ => false

/-- The future is in the part of its call that has the lock. -/
def futureHolds : FuturePc W → Bool
  | .recheck _ | .push _ | .remove _ | .hung => true
  | _ => false

/-- A future or an activity is in a part that has the lock. -/
def inside (s : Registration F T W) : F ⊕ T → Prop
  | .inl f => futureHolds (s.futures f).pc = true
  | .inr t => callHolds (s.calls t) = true

/-- Who stands in a locked part has the lock, and the waiters in the list, and those that a `wake`
still has to look at, have stored their wakers. -/
structure LockOk (s : Registration F T W) : Prop where
  locked : Locked s.lock (inside s)
  listed : ∀ f ∈ s.waiters, (s.futures f).waker.isSome = true
  todo : ∀ t, ∀ f ∈ todoOf (s.calls t), (s.futures f).waker.isSome = true

variable [DecidableEq F] [DecidableEq T] [DecidableEq W] {s s' : Registration F T W}

/-- What a step of the future `f` can do. -/
structure FutureMove (f : F) (s s' : Registration F T W) : Prop where
  calls : s'.calls = s.calls
  readiness : s'.readiness = s.readiness
  read : s'.read = s.read
  write : s'.write = s.write
  others : ∀ g, g ≠ f → s'.futures g = s.futures g
  waker : (s.futures f).waker.isSome = true → (s'.futures f).waker.isSome = true
  waiters : ∀ g ∈ s'.waiters, g ∈ s.waiters ∨ g = f ∧ (s'.futures f).waker.isSome = true
  lock : LockMove (.inl f) s.lock s'.lock (inside s (.inl f)) (inside s' (.inl f))

variable {f : F} {kept : List W} {readiness : ReadinessState} {w : W} {log : PollLog W}

/-- A future takes and gives back the lock for itself. -/
theorem FutureMove.ok (h : LockOk s) (hmove : FutureMove f s s') : LockOk s' where
  locked := by
    refine h.locked.move hmove.lock fun b hne hb => ?_
    cases b with
    | inl g =>
        simp only [inside] at hb ⊢
        rwa [hmove.others g fun heq => hne (congrArg _ heq)] at hb
    | inr t =>
        simp only [inside] at hb ⊢
        rwa [hmove.calls] at hb
  listed := by
    intro g hg
    by_cases heq : g = f
    · subst heq
      rcases hmove.waiters g hg with hmem | ⟨-, hwaker⟩
      · exact hmove.waker (h.listed g hmem)
      · exact hwaker
    · rw [hmove.others g heq]
      rcases hmove.waiters g hg with hmem | ⟨hf, -⟩
      · exact h.listed g hmem
      · exact absurd hf heq
  todo := by
    intro t g hg
    rw [hmove.calls] at hg
    by_cases heq : g = f
    · subst heq
      exact hmove.waker (h.todo t g hg)
    · rw [hmove.others g heq]
      exact h.todo t g hg

/-- A future changes and nothing else does. -/
theorem futureMove_setFuture {r : ReadinessFuture W} (hwaker : r.waker = (s.futures f).waker)
    (hpc : futureHolds r.pc = futureHolds (s.futures f).pc) : FutureMove f s (s.setFuture f r) where
  calls := rfl
  readiness := rfl
  read := rfl
  write := rfl
  others := fun g hg => update_of_ne hg _ _
  waker := by simp [setFuture, hwaker]
  waiters := fun g hg => Or.inl hg
  lock := .keep rfl (by simp [inside, setFuture, hpc])

/-- A future lets go of the lock. -/
theorem futureMove_unlock {r : ReadinessFuture W} {waiters : List F}
    (hholds : futureHolds (s.futures f).pc = true) (hpc : futureHolds r.pc = false)
    (hwaker : (s.futures f).waker.isSome = true → r.waker.isSome = true)
    (hwaiters : ∀ g ∈ waiters, g ∈ s.waiters ∨ g = f ∧ r.waker.isSome = true) :
    FutureMove f s ({ s with lock := none, waiters }.setFuture f r) where
  calls := rfl
  readiness := rfl
  read := rfl
  write := rfl
  others := fun g hg => update_of_ne hg _ _
  waker := by simpa [setFuture] using hwaker
  waiters := by simpa [setFuture] using hwaiters
  lock := .release hholds rfl (by simp [inside, setFuture, hpc])

/-- A future takes the lock. -/
theorem futureMove_lockFuture {pc : FuturePc W} (hstep : s.lockFuture f pc = some s') :
    FutureMove f s s' := by
  unfold lockFuture at hstep
  split at hstep
  · rename_i hfree
    cases hstep
    exact
      { calls := rfl
        readiness := rfl
        read := rfl
        write := rfl
        others := fun g hg => update_of_ne hg _ _
        waker := by simp [setFuture]
        waiters := fun g hg => Or.inl hg
        lock := .acquire hfree rfl }
  · cases hstep

/-- `remove` adds nothing to the list. -/
theorem removeSpec_subset {xs ys : List F} {found : Bool}
    (h : Containers.IntrusiveList.removeSpec xs f = some (found, ys)) : ys ⊆ xs := by
  unfold Containers.IntrusiveList.removeSpec at h
  split at h
  · cases h
    exact List.erase_subset
  · split at h <;> cases h
    exact List.Subset.refl xs

/-- Every step of a future moves only the future. -/
theorem advance_futureMove (hstep : s.advance f = some s') : FutureMove f s s' := by
  unfold advance at hstep
  dsimp only at hstep
  cases hpc : (s.futures f).pc with
  | idle | hung =>
      rw [hpc] at hstep
      cases hstep
  | isReady w =>
      rw [hpc] at hstep
      dsimp only at hstep
      split at hstep
      all_goals cases hstep
      all_goals exact futureMove_setFuture rfl (by rw [hpc]; rfl)
  | lock w =>
      rw [hpc] at hstep
      exact futureMove_lockFuture hstep
  | recheck w =>
      rw [hpc] at hstep
      dsimp only at hstep
      split at hstep
      · cases hstep
        exact futureMove_unlock (by rw [hpc]; rfl) rfl id fun g hg => Or.inl hg
      · cases hstep
        exact futureMove_setFuture rfl (by rw [hpc]; rfl)
  | push w =>
      rw [hpc] at hstep
      cases hstep
      refine futureMove_unlock (by rw [hpc]; rfl) rfl (fun _ => rfl) fun g hg => ?_
      rcases List.mem_append.mp hg with hg | hg
      · exact Or.inl hg
      · exact Or.inr ⟨List.mem_singleton.mp hg, rfl⟩
  | removeLock result =>
      rw [hpc] at hstep
      exact futureMove_lockFuture hstep
  | remove result =>
      rw [hpc] at hstep
      dsimp only at hstep
      split at hstep
      · cases hstep
        exact futureMove_setFuture rfl (by rw [hpc]; rfl)
      · rename_i hremove
        have hsub := removeSpec_subset hremove
        cases result with
        | some readiness =>
            cases hstep
            exact futureMove_unlock (by rw [hpc]; rfl) rfl id fun g hg => Or.inl (hsub hg)
        | none =>
            cases hstep
            exact futureMove_unlock (by rw [hpc]; rfl) rfl id fun g hg => Or.inl (hsub hg)

/-! ### The steps of an activity -/

/-- The slot of a direction. -/
def slot (s : Registration F T W) : Direction → Option W
  | .readable => s.read
  | .writable => s.write

/-- The readiness for which a `wake` that has marked the word still has to take the slots. -/
def toTake : CallPc F W → Option ReadinessState
  | .wakeLock readiness | .slots readiness => some readiness
  | _ => none

/-- The next step of the activity stores the waker of a poll. -/
def storesNext : CallPc F W → Bool
  | .registerStore _ _ => true
  | _ => false

/-- What a step of the activity `t` to the place `pc` does to the lock and the waiters. -/
structure CallMove (t : T) (pc : CallPc F W) (s s' : Registration F T W) : Prop where
  calls : s'.calls = Function.update s.calls t pc
  futures : ∀ f, (s'.futures f).pc = (s.futures f).pc ∧ (s'.futures f).waker = (s.futures f).waker
  waiters : s'.waiters ⊆ s.waiters
  todo : ∀ f ∈ todoOf pc, f ∈ todoOf (s.calls t) ∨ f ∈ s.waiters
  lock : LockMove (.inr t) s.lock s'.lock (inside s (.inr t)) (callHolds pc = true)

/-- An activity takes and gives back the lock for itself. -/
theorem CallMove.ok {t : T} {pc : CallPc F W} (h : LockOk s) (hmove : CallMove t pc s s') :
    LockOk s' where
  locked := by
    have hself : inside s' (.inr t) = (callHolds pc = true) := by
      rw [inside, hmove.calls, update_self]
    refine h.locked.move (hself ▸ hmove.lock) fun b hne hb => ?_
    cases b with
    | inl f =>
        simp only [inside] at hb ⊢
        rwa [(hmove.futures f).1] at hb
    | inr t' =>
        simp only [inside] at hb ⊢
        rwa [hmove.calls, update_of_ne fun heq => hne (congrArg _ heq)] at hb
  listed := fun f hf => by
    rw [(hmove.futures f).2]
    exact h.listed f (hmove.waiters hf)
  todo := by
    intro t' f hf
    rw [hmove.calls] at hf
    rw [(hmove.futures f).2]
    by_cases heq : t' = t
    · subst heq
      rw [update_self] at hf
      rcases hmove.todo f hf with hf | hf
      · exact h.todo t' f hf
      · exact h.listed f hf
    · rw [update_of_ne heq] at hf
      exact h.todo t' f hf

/-- What a step of the activity `t` to the place `pc` does to the word and the slots. -/
inductive CallEffect (t : T) (s s' : Registration F T W) : CallPc F W → Prop
  /-- `mark_state`. -/
  | mark (state : ReadinessState) (hpc : s.calls t = .mark state)
      (hreadiness : s'.readiness = s.readiness.markState state) (hslots : slot s' = slot s) :
      CallEffect t s s' (.wakeLock s'.readiness)
  /-- The slots of the directions that are ready are taken. -/
  | take (readiness : ReadinessState) (kept : List W) (hpc : s.calls t = .slots readiness)
      (hreadiness : s'.readiness = s.readiness)
      (hslots : ∀ d, slot s' d = if readiness.has d then none else slot s d)
      (hkept : ∀ d w, readiness.has d = true → slot s d = some w → w ∈ kept) :
      CallEffect t s s' (.waiters readiness s.waiters kept)
  /-- The second check of a poll finds nothing. -/
  | recheck (interest : IoEventInterest) (waker : W)
      (hpc : s.calls t = .registerRecheck interest waker)
      (hready : s.readiness.isReady interest = none) (hreadiness : s'.readiness = s.readiness)
      (hslots : slot s' = slot s) : CallEffect t s s' (.registerStore interest waker)
  /-- A poll stores its waker and returns `Pending`. -/
  | store (interest : IoEventInterest) (waker : W)
      (hpc : s.calls t = .registerStore interest waker) (hreadiness : s'.readiness = s.readiness)
      (hread : s'.read = if interest.isReadable then some waker else s.read)
      (hwrite : s'.write = if interest.isReadable then s.write else some waker) :
      CallEffect t s s' .idle
  /-- The word and the slots stay, and every waker that was kept is kept or woken. -/
  | other (pc : CallPc F W) (hreadiness : s'.readiness = s.readiness) (hslots : slot s' = slot s)
      (hbefore : storesNext (s.calls t) = false) (htake : toTake pc = toTake (s.calls t))
      (hstore : storesNext pc = false)
      (hkept : ∀ w ∈ keptBy (s.calls t),
        w ∈ keptBy pc ∨ Registration.wokenAt s.futures (s.calls t) = some w) :
      CallEffect t s s' pc

/-- The interest that a poll in this place is for. -/
def pollsFor : CallPc F W → Option IoEventInterest
  | .registerReady interest _ | .registerLock interest _ | .registerRecheck interest _
  | .registerStore interest _ => some interest
  | _ => none

/-- An activity moves on, and the futures and the list stay. -/
theorem callMove_of {t : T} {pc : CallPc F W} (hcalls : s'.calls = Function.update s.calls t pc)
    (hfutures : s'.futures = s.futures) (hwaiters : s'.waiters = s.waiters)
    (htodo : ∀ f ∈ todoOf pc, f ∈ todoOf (s.calls t) ∨ f ∈ s.waiters)
    (hlock : LockMove (.inr t) s.lock s'.lock (callHolds (s.calls t) = true)
      (callHolds pc = true)) :
    CallMove t pc s s' where
  calls := hcalls
  futures := fun f => by
    rw [hfutures]
    exact ⟨rfl, rfl⟩
  waiters := by
    rw [hwaiters]
    exact List.Subset.refl _
  todo := htodo
  lock := hlock

/-- What one round of the closure of `remove_if` does. -/
theorem wakeWaiter_cases (h : LockOk s) {t : T} {todo : List F}
    (hpc : s.calls t = .waiters readiness (f :: todo) kept) :
    ∃ kept', CallMove t (.waiters readiness todo kept') s (s.wakeWaiter t readiness f todo kept) ∧
      CallEffect t s (s.wakeWaiter t readiness f todo kept) (.waiters readiness todo kept') := by
  have htodo : ∀ g ∈ todo, g ∈ todoOf (s.calls t) ∨ g ∈ s.waiters := by
    intro g hg
    rw [hpc]
    exact Or.inl (List.mem_cons_of_mem f hg)
  have hholds : callHolds (s.calls t) = true := by rw [hpc]; rfl
  have heffect : ∀ {s' : Registration F T W} {kept'}, s'.readiness = s.readiness →
      slot s' = slot s → kept ⊆ kept' → CallEffect t s s' (.waiters readiness todo kept') := by
    intro s' kept' hreadiness hslots hsub
    refine .other _ hreadiness hslots (by rw [hpc]; rfl) (by rw [hpc]; rfl) rfl ?_
    rw [hpc]
    exact fun w hw => Or.inl (hsub hw)
  unfold wakeWaiter
  dsimp only
  split
  · exact ⟨kept, callMove_of rfl rfl rfl htodo (.keep rfl fun _ => hholds),
      heffect rfl rfl (List.Subset.refl _)⟩
  · split
    · -- The waiters to look at have stored their wakers.
      rename_i hnone
      have hstored := h.todo t f (by rw [hpc]; exact List.mem_cons_self)
      rw [hnone] at hstored
      cases hstored
    · rename_i w hwaker
      split
      · exact ⟨kept ++ [w],
          { calls := rfl
            futures := fun _ => ⟨rfl, rfl⟩
            waiters := List.erase_subset
            todo := htodo
            lock := .keep rfl fun _ => hholds },
          heffect rfl rfl (List.subset_append_left _ _)⟩
      · refine ⟨kept,
          { calls := rfl
            futures := fun g => ?_
            waiters := List.erase_subset
            todo := htodo
            lock := .keep rfl fun _ => hholds },
          heffect rfl rfl (List.Subset.refl _)⟩
        show (ite _ _ (s.futures g)).pc = _ ∧ (ite _ _ (s.futures g)).waker = _
        split <;> exact ⟨rfl, rfl⟩

/-- What a step of the activity `t` can do: it moves to some place, and a poll keeps its
interest. -/
def CallStep (t : T) (s s' : Registration F T W) : Prop :=
  ∃ pc, CallMove t pc s s' ∧ CallEffect t s s' pc ∧
    (pollsFor pc = none ∨ pollsFor pc = pollsFor (s.calls t))

/-- An activity moves on from `pc` to `pc'` and changes at most the lock. -/
theorem callStep_goto {t : T} {pc pc' : CallPc F W} (hpc : s.calls t = pc) (lock : Option (F ⊕ T))
    (hlock : LockMove (.inr t) s.lock lock (callHolds pc = true) (callHolds pc' = true))
    (htodo : todoOf pc' = []) (hbefore : storesNext pc = false) (htake : toTake pc' = toTake pc)
    (hstore : storesNext pc' = false) (hkept : keptBy pc ⊆ keptBy pc')
    (hpolls : pollsFor pc' = none ∨ pollsFor pc' = pollsFor pc) :
    CallStep t s ({ s with lock }.setCall t pc') := by
  subst hpc
  refine ⟨pc', callMove_of rfl rfl rfl (fun f hf => ?_) hlock,
    .other pc' rfl rfl hbefore htake hstore fun w hw => Or.inl (hkept hw), hpolls⟩
  rw [htodo] at hf
  cases hf

/-- A `wake` takes the slots. -/
theorem callStep_slots {t : T} (hpc : s.calls t = .slots readiness)
    (hstep : s.stepCall t = some s') :
    CallStep t s s' := by
  unfold stepCall at hstep
  rw [hpc] at hstep
  cases hstep
  refine ⟨_, callMove_of rfl rfl rfl (fun f hf => Or.inr hf) (.keep rfl ?_),
    .take readiness _ hpc rfl (fun d => ?_) (fun d w hd hw => ?_), Or.inl rfl⟩
  · rw [hpc]
    exact fun _ => rfl
  · cases d <;> rfl
  · -- What was in a slot that is taken is among the wakers kept.
    cases d with
    | readable =>
        rw [show readiness.isReadable = true from hd, show s.read = some w from hw]
        exact List.mem_append_left _ List.mem_cons_self
    | writable =>
        rw [show readiness.isWritable = true from hd, show s.write = some w from hw]
        exact List.mem_append_right _ List.mem_cons_self

/-- A `wake` wakes the first waker that it has kept. -/
theorem callStep_waking {t : T} (hpc : s.calls t = .waking (w :: kept))
    (hstep : s.stepCall t = some s') : CallStep t s s' := by
  unfold stepCall at hstep
  rw [hpc] at hstep
  cases hstep
  refine ⟨.waking kept, ?_, .other _ rfl rfl (by rw [hpc]; rfl) (by rw [hpc]; rfl) rfl
    fun w' hw' => ?_, Or.inl rfl⟩
  · exact
      { calls := rfl
        futures := fun g => by
          show (ite _ _ (s.futures g)).pc = _ ∧ (ite _ _ (s.futures g)).waker = _
          split <;> exact ⟨rfl, rfl⟩
        waiters := List.Subset.refl _
        todo := fun f hf => by cases hf
        lock := .keep rfl fun hholds => by cases hholds }
  · rw [hpc] at hw' ⊢
    rcases List.mem_cons.mp hw' with rfl | hw'
    · exact Or.inr rfl
    · exact Or.inl hw'

/-- Every step of an activity moves only the activity, one case for each place. -/
theorem stepCall_callStep (h : LockOk s) {t : T} (hstep : s.stepCall t = some s') :
    CallStep t s s' := by
  unfold stepCall at hstep
  cases hpc : s.calls t with
  | idle | panicked =>
      rw [hpc] at hstep
      cases hstep
  | mark state =>
      rw [hpc] at hstep
      cases hstep
      refine ⟨_, callMove_of rfl rfl rfl (fun f hf => ?_) (.keep rfl ?_), .mark state hpc rfl rfl,
        Or.inl rfl⟩
      · cases hf
      · exact fun hholds => by cases hholds
  | wakeLock readiness =>
      rw [hpc] at hstep
      obtain ⟨hfree, rfl⟩ := Option.ite_some_none_eq_some.mp hstep
      exact callStep_goto hpc _ (.acquire hfree rfl) rfl rfl rfl rfl
        (List.Subset.refl _) (Or.inl rfl)
  | slots readiness => exact callStep_slots hpc hstep
  | waiters readiness todo kept =>
      cases todo with
      | cons f todo =>
          rw [hpc] at hstep
          cases hstep
          obtain ⟨kept', hmove, heffect⟩ := wakeWaiter_cases h hpc
          exact ⟨_, hmove, heffect, Or.inl rfl⟩
      | nil =>
          rw [hpc] at hstep
          cases hstep
          exact callStep_goto hpc _ (.release rfl rfl Bool.false_ne_true) rfl rfl rfl rfl
            (List.Subset.refl _) (Or.inl rfl)
  | waking kept =>
      cases kept with
      | cons w kept => exact callStep_waking hpc hstep
      | nil =>
          rw [hpc] at hstep
          cases hstep
          exact callStep_goto hpc s.lock (.keep rfl id) rfl rfl rfl rfl
            (List.Subset.refl _) (Or.inl rfl)
  | registerReady interest w =>
      rw [hpc] at hstep
      dsimp only at hstep
      split at hstep
      · cases hstep
        exact callStep_goto hpc s.lock (.keep rfl id) rfl rfl rfl rfl
          (List.Subset.refl _) (Or.inl rfl)
      · cases hstep
        exact callStep_goto hpc s.lock (.keep rfl id) rfl rfl rfl rfl
          (List.Subset.refl _) (Or.inr rfl)
  | registerLock interest w =>
      rw [hpc] at hstep
      obtain ⟨hfree, rfl⟩ := Option.ite_some_none_eq_some.mp hstep
      exact callStep_goto hpc _ (.acquire hfree rfl) rfl rfl rfl rfl
        (List.Subset.refl _) (Or.inr rfl)
  | registerRecheck interest w =>
      rw [hpc] at hstep
      dsimp only at hstep
      split at hstep
      · cases hstep
        exact callStep_goto hpc _ (.release rfl rfl Bool.false_ne_true) rfl rfl rfl rfl
          (List.Subset.refl _) (Or.inl rfl)
      · rename_i hready
        cases hstep
        refine ⟨_, callMove_of rfl rfl rfl (fun f hf => by cases hf) (.keep rfl ?_),
          .recheck interest w hpc hready rfl rfl, Or.inr (by rw [hpc]; rfl)⟩
        rw [hpc]
        exact fun _ => rfl
  | registerStore interest w =>
      rw [hpc] at hstep
      dsimp only at hstep
      split at hstep
      all_goals
        rename_i hreadable
        cases hstep
        refine ⟨.idle, callMove_of rfl rfl rfl (fun f hf => by cases hf)
          (.release (by rw [hpc]; rfl) rfl Bool.false_ne_true),
          .store interest w hpc rfl ?_ ?_, Or.inl rfl⟩
        · simp [hreadable, setCall]
        · simp [hreadable, setCall]

/-! ### The invariant of a direction -/

/-- Some running `wake` has marked the direction and still has to take its slot. -/
def MarkedFor (s : Registration F T W) (d : Direction) : Prop :=
  ∃ t readiness, toTake (s.calls t) = some readiness ∧ readiness.has d = true

/-- The direction is set in the word only where a running `wake` has marked it. -/
def Covered (s : Registration F T W) (d : Direction) : Prop :=
  s.readiness.has d = true → MarkedFor s d

/-- A readiness that was reported for a direction has states, and all of them are in its
interest. -/
def IsPartOf (r : ReadinessState) (interest : IoEventInterest) : Prop :=
  r.extractState ≠ 0 ∧
    r.extractState &&& (ReadinessState.ofInterest interest).extractState = r.extractState

/-- The invariant of a direction. -/
structure DirectionOk (s : Registration F T W) (log : PollLog W) (d : Direction) : Prop where
  waits : ∀ w, log.pending = some w → log.woken = false →
    (slot s d = some w ∧ Covered s d) ∨ Held s.calls w
  storing : ∀ t w, s.calls t = .registerStore d.interest w → Covered s d
  reported : ∀ r, log.reported = some r → IsPartOf r d.interest

/-- The invariant of the system. -/
structure PollOk (s : PollSystem F T W) : Prop where
  lock : LockOk s.registration
  polls : ∀ t i, pollsFor (s.registration.calls t) = some i → ∃ d : Direction, i = d.interest
  direction : ∀ d, DirectionOk s.registration (s.log d) d

/-! ### The two directions -/

/-- `is_ready` answers states of the interest, and at least one. -/
theorem isPartOf_isReady {r current : ReadinessState} {i : IoEventInterest}
    (h : current.isReady i = some r) : IsPartOf r i := by
  unfold ReadinessState.isReady ReadinessState.intersection at h
  dsimp only at h
  split at h
  · cases h
  · rename_i hne
    cases h
    rw [IsPartOf, extractState_fromComponents]
    refine ⟨hne, ?_⟩
    rw [UInt16.and_assoc, UInt16.and_self]

theorem interest_inj {d d' : Direction} (h : d.interest = d'.interest) : d = d' := by
  cases d <;> cases d' <;> first | rfl | cases h

theorem has_interest (d d' : Direction) : d.interest.has d' = decide (d' = d) := by
  cases d <;> cases d' <;> rfl

theorem not_has_of_isReady {r : ReadinessState} {d : Direction}
    (h : r.isReady d.interest = none) : r.has d = false := by
  cases hr : r.has d with
  | false => rfl
  | true =>
      have hsome := (intersection_isSome r d.interest).mpr ⟨d, hr, by rw [has_interest]; simp⟩
      rw [show r.intersection _ = none from h] at hsome
      cases hsome

/-- A clear sets no state. -/
theorem has_clearReadiness (current readiness : ReadinessState) (i : IoEventInterest)
    (d : Direction) (h : ((current.clearReadiness readiness i).getD current).has d = true) :
    current.has d = true := by
  unfold ReadinessState.clearReadiness at h
  split at h
  · exact h
  · split at h
    · exact h
    · rw [Option.getD_some, has_clear, Bool.and_eq_true] at h
      exact h.1

/-! ### What a step does to the directions -/

variable {t : T} {pc : CallPc F W} {d : Direction}

/-- A direction stays covered when the word gets no state and the activity that moves keeps what it
has marked. -/
theorem Covered.move (h : Covered s d) (hcalls : s'.calls = Function.update s.calls t pc)
    (hhas : s'.readiness.has d = true → s.readiness.has d = true)
    (htake : ∀ r, toTake (s.calls t) = some r → r.has d = true → toTake pc = some r) :
    Covered s' d := by
  intro hset
  obtain ⟨t', r, ht', hr⟩ := h (hhas hset)
  refine ⟨t', r, ?_, hr⟩
  rw [hcalls]
  by_cases heq : t' = t
  · subst heq
    rw [update_self]
    exact htake r ht' hr
  · rwa [update_of_ne heq]

/-- A waker stays held when the activity that moves keeps it. -/
theorem Held.move (h : Held s.calls w) (hcalls : s'.calls = Function.update s.calls t pc)
    (hkept : w ∈ keptBy (s.calls t) → w ∈ keptBy pc) : Held s'.calls w := by
  obtain ⟨t', ht'⟩ := h
  refine ⟨t', ?_⟩
  rw [hcalls]
  by_cases heq : t' = t
  · subst heq
    rw [update_self]
    exact hkept ht'
  · rwa [update_of_ne heq]

/-- Who is about to store a waker was so before, or is the activity that moves. -/
theorem storing_cases (hcalls : s'.calls = Function.update s.calls t pc) {t' : T}
    (h : s'.calls t' = .registerStore d.interest w) :
    pc = .registerStore d.interest w ∨ t' ≠ t ∧ s.calls t' = .registerStore d.interest w := by
  rw [hcalls] at h
  by_cases heq : t' = t
  · subst heq
    rw [update_self] at h
    exact Or.inl h
  · rw [update_of_ne heq] at h
    exact Or.inr ⟨heq, h⟩

/-- What a poll that does not store its waker returns in a step. -/
theorem returnedAt_cases (hbefore : storesNext pc = false) :
    Registration.returnedAt readiness pc = none ∨
      ∃ i r, Registration.returnedAt readiness pc = some (i, .ready r) ∧ IsPartOf r i := by
  cases pc with
  | registerReady i w | registerRecheck i w =>
      cases hi : readiness.isReady i with
      | none => simp [returnedAt, hi]
      | some r => simp [returnedAt, hi, isPartOf_isReady hi]
  | registerStore i w => cases hbefore
  | _ => exact Or.inl rfl

/-- A poll that does not store its waker has found readiness, or it goes on. -/
theorem returned_cases (hbefore : storesNext (s.calls t) = false) :
    s.returned d (.step t) = none ∨
      ∃ r, s.returned d (.step t) = some (.ready r) ∧ IsPartOf r d.interest := by
  simp only [returned]
  rcases returnedAt_cases hbefore with hnone | ⟨i, r, hsome, hr⟩
  · rw [hnone]
    exact Or.inl rfl
  · rw [hsome]
    by_cases heq : i = d.interest
    · exact Or.inr ⟨r, if_pos heq, heq ▸ hr⟩
    · exact Or.inl (if_neg heq)

/-- A step that stores no waker for the direction, and does not mark it or take its slot. -/
theorem DirectionOk.other (h : DirectionOk s log d)
    (hcalls : s'.calls = Function.update s.calls t pc) (hreadiness : s'.readiness = s.readiness)
    (hslots : slot s' d = slot s d)
    (htake : ∀ r, toTake (s.calls t) = some r → r.has d = true → toTake pc = some r)
    (hstore : ∀ w, pc = .registerStore d.interest w → s.readiness.has d = false) {woken : Option W}
    (hkept : ∀ w ∈ keptBy (s.calls t), w ∈ keptBy pc ∨ woken = some w)
    {result : Option (ReadinessPoll W)}
    (hresult : result = none ∨ ∃ r, result = some (.ready r) ∧ IsPartOf r d.interest) :
    DirectionOk s' (log.note woken result) d := by
  have hhas : s'.readiness.has d = true → s.readiness.has d = true := by
    rw [hreadiness]
    exact id
  have hstoring : ∀ t' w, s'.calls t' = .registerStore d.interest w → Covered s' d := by
    intro t' w ht'
    rcases storing_cases hcalls ht' with hpc | ⟨-, hbefore⟩
    · intro hset
      rw [hstore w hpc] at hhas
      cases hhas hset
    · exact (h.storing t' w hbefore).move hcalls hhas htake
  rcases hresult with rfl | ⟨r, rfl, hr⟩
  · unfold PollLog.note
    dsimp only
    split
    · exact ⟨(fun w _ hwoken => by cases hwoken), hstoring, h.reported⟩
    · rename_i hother
      refine ⟨fun w hpending hwoken => ?_, hstoring, h.reported⟩
      rcases h.waits w hpending hwoken with ⟨hslot, hcovered⟩ | hheld
      · exact Or.inl ⟨hslots.trans hslot, hcovered.move hcalls hhas htake⟩
      · refine Or.inr (hheld.move hcalls fun hw => (hkept w hw).resolve_right fun heq => ?_)
        exact hother ⟨by rw [heq]; rfl, hpending.trans heq.symm⟩
  · refine ⟨(fun w hpending _ => by cases hpending), hstoring, fun r' hr' => ?_⟩
    cases hr'
    exact hr

/-- The slot of a direction after a poll for an interest has stored its waker. -/
theorem slot_store {d' : Direction}
    (hread : s'.read = if d'.interest.isReadable then some w else s.read)
    (hwrite : s'.write = if d'.interest.isReadable then s.write else some w) :
    slot s' d = if d = d' then some w else slot s d := by
  cases d <;> cases d' <;> first | exact hread | exact hwrite

/-- Nothing is noted of a direction in a step that wakes nobody and returns from no poll. -/
theorem note_none (log : PollLog W) : log.note none none = log := by
  simp [PollLog.note]

/-- `mark_state`. What is set in the word now is in the readiness that this `wake` goes on with. -/
theorem DirectionOk.mark (h : DirectionOk s log d) {state : ReadinessState}
    (hpc : s.calls t = .mark state)
    (hcalls : s'.calls = Function.update s.calls t (.wakeLock s'.readiness))
    (hslots : slot s' = slot s) : DirectionOk s' log d := by
  have hcovered : Covered s' d := by
    intro hset
    refine ⟨t, s'.readiness, ?_, hset⟩
    rw [hcalls, update_self]
    rfl
  refine ⟨fun w hpending hwoken => ?_, fun _ _ _ => hcovered, h.reported⟩
  rcases h.waits w hpending hwoken with ⟨hslot, -⟩ | hheld
  · exact Or.inl ⟨(congrFun hslots d).trans hslot, hcovered⟩
  · refine Or.inr (hheld.move hcalls ?_)
    rw [hpc]
    exact fun hw => by cases hw

/-- A `wake` that has marked the direction takes its slot, with the waker in it. -/
theorem DirectionOk.take (hlock : LockOk s) (h : DirectionOk s log d)
    (hpc : s.calls t = .slots readiness)
    (hcalls : s'.calls = Function.update s.calls t (.waiters readiness s.waiters kept))
    (hkept : ∀ w, slot s d = some w → w ∈ kept) : DirectionOk s' log d := by
  refine ⟨fun w hpending hwoken => Or.inr ?_, fun t' w ht' => ?_, h.reported⟩
  · rcases h.waits w hpending hwoken with ⟨hslot, -⟩ | hheld
    · refine ⟨t, ?_⟩
      rw [hcalls, update_self]
      exact hkept w hslot
    · refine hheld.move hcalls ?_
      rw [hpc]
      exact fun hw => by cases hw
  · -- The lock is here, so no poll is about to store its waker.
    rcases storing_cases hcalls ht' with hne | ⟨hne, hbefore⟩
    · cases hne
    · refine absurd (Sum.inr.inj (hlock.locked.unique ?_ ?_)) hne
      · simp only [inside, hbefore, callHolds]
      · simp only [inside, hpc, callHolds]

/-- A poll for the direction stores its waker. The direction is not set, or a `wake` has marked it
since the second check. -/
theorem DirectionOk.store {woken : Option W} (h : DirectionOk s log d) {waker : W}
    (hpc : s.calls t = .registerStore d.interest waker)
    (hcalls : s'.calls = Function.update s.calls t .idle) (hreadiness : s'.readiness = s.readiness)
    (hslot : slot s' d = some waker) :
    DirectionOk s' (log.note woken (some (.pending waker))) d := by
  have hcovered : Covered s' d := by
    refine (h.storing t waker hpc).move hcalls (by rw [hreadiness]; exact id) ?_
    rw [hpc]
    exact fun r hr => by cases hr
  refine ⟨fun w hpending _ => ?_, fun _ _ _ => hcovered, h.reported⟩
  cases hpending
  exact Or.inl ⟨hslot, hcovered⟩

/-- A step of an activity keeps `DirectionOk`, one case for each effect. -/
theorem DirectionOk.callStep (hlock : LockOk s) (h : DirectionOk s log d)
    (hpolls : ∀ i, pollsFor (s.calls t) = some i → ∃ d : Direction, i = d.interest)
    (hmove : CallMove t pc s s') (heffect : CallEffect t s s' pc) :
    DirectionOk s' (log.note (s.woken (.step t)) (s.returned d (.step t))) d := by
  have hcalls := hmove.calls
  cases heffect with
  | mark state hpc hreadiness hslots =>
      simp only [woken, returned, hpc, wokenAt, returnedAt, note_none]
      exact h.mark hpc hcalls hslots
  | take readiness kept hpc hreadiness hslots hkept =>
      cases hd : readiness.has d with
      | false =>
          -- The slot stays, and this `wake` has not marked the direction.
          refine h.other hcalls hreadiness (by rw [hslots, hd]; rfl) (fun r hr hrd => ?_)
            (fun w hw => by cases hw) (fun w hw => ?_) (returned_cases (by rw [hpc]; rfl))
          · rw [hpc] at hr
            cases hr
            rw [hd] at hrd
            cases hrd
          · rw [hpc] at hw
            cases hw
      | true =>
          simp only [woken, returned, hpc, wokenAt, returnedAt, note_none]
          exact h.take hlock hpc hcalls fun w => hkept d w hd
  | recheck interest waker hpc hready hreadiness hslots =>
      have hreturned : s.returned d (.step t) = none := by
        simp [returned, hpc, returnedAt, hready]
      refine h.other hcalls hreadiness (congrFun hslots d) ?_ ?_ ?_ (Or.inl hreturned)
      · rw [hpc]
        exact fun r hr => by cases hr
      · intro w hw
        cases hw
        exact not_has_of_isReady hready
      · rw [hpc]
        exact fun w hw => by cases hw
  | store interest waker hpc hreadiness hread hwrite =>
      obtain ⟨d', rfl⟩ := hpolls interest (by rw [hpc]; rfl)
      have hslot : slot s' d = if d = d' then some waker else slot s d := slot_store hread hwrite
      by_cases heq : d = d'
      · subst heq
        have hreturned : s.returned d (.step t) = some (.pending waker) := by
          simp [returned, hpc, returnedAt]
        rw [hreturned]
        exact h.store hpc hcalls hreadiness (hslot.trans (if_pos rfl))
      · -- The slot of the other direction.
        have hne : ¬ d'.interest = d.interest := fun hinterest => heq (interest_inj hinterest).symm
        have hreturned : s.returned d (.step t) = none := by
          simp [returned, hpc, returnedAt, hne]
        refine h.other hcalls hreadiness (hslot.trans (if_neg heq)) ?_ (fun w hw => by cases hw) ?_
          (Or.inl hreturned)
        · rw [hpc]
          exact fun r hr => by cases hr
        · rw [hpc]
          exact fun w hw => by cases hw
  | other _ hreadiness hslots hbefore htake hstore hkept =>
      refine h.other hcalls hreadiness (congrFun hslots d) (fun r hr _ => htake.trans hr) ?_ hkept
        (returned_cases hbefore)
      rintro w rfl
      cases hstore

/-- A step that leaves the activities and the slots alone, and sets no state. -/
theorem DirectionOk.congr (h : DirectionOk s log d) (hcalls : s'.calls = s.calls)
    (hhas : s'.readiness.has d = true → s.readiness.has d = true) (hslot : slot s' d = slot s d) :
    DirectionOk s' log d := by
  have hcovered : Covered s d → Covered s' d := by
    intro hcovered hset
    unfold MarkedFor
    rw [hcalls]
    exact hcovered (hhas hset)
  refine ⟨fun w hpending hwoken => ?_, fun t w ht => ?_, h.reported⟩
  · rw [hslot, hcalls]
    rcases h.waits w hpending hwoken with ⟨hslot, hcov⟩ | hheld
    · exact Or.inl ⟨hslot, hcovered hcov⟩
    · exact Or.inr hheld
  · rw [hcalls] at ht
    exact hcovered (h.storing t w ht)

/-! ### Whole runs -/

/-- Tasks poll for `READABLE` or for `WRITABLE`, not for both in one call. -/
def singleInterest : Action F T W → Bool
  | .register _ interest _ => interest == .readable || interest == .writable
  | _ => true

/-- The guard of a run: no poll is for both directions. -/
def SingleInterest (_ : PollSystem F T W) (a : Action F T W) : Prop := singleInterest a = true

theorem exists_direction {interest : IoEventInterest}
    (h : (interest == .readable || interest == .writable) = true) :
    ∃ d : Direction, interest = d.interest := by
  rcases Bool.or_eq_true_iff.mp h with h | h
  · exact ⟨.readable, eq_of_beq h⟩
  · exact ⟨.writable, eq_of_beq h⟩

/-- Nobody has polled yet. -/
theorem pollOk_new (interests : F → IoEventInterest) :
    PollOk (PollSystem.new interests : PollSystem F T W) where
  lock :=
    { locked := by
        rintro (f | t) hinside <;> cases hinside
      listed := fun f hf => by cases hf
      todo := fun t f hf => by cases hf }
  polls := fun t i hi => by cases hi
  direction := fun d =>
    { waits := fun w hpending => by cases hpending
      storing := fun t w ht => by cases ht
      reported := fun r hr => by cases hr }

section Steps

variable {s s' : PollSystem F T W}

/-- A future moves, and nothing is noted. -/
theorem PollOk.futureMove {f : F} {r : Registration F T W} (h : PollOk s)
    (hmove : FutureMove f s.registration r) : PollOk ⟨r, s.log⟩ where
  lock := hmove.ok h.lock
  polls := by
    rw [hmove.calls]
    exact h.polls
  direction := fun d => by
    refine (h.direction d).congr hmove.calls (by rw [hmove.readiness]; exact id) ?_
    cases d with
    | readable => exact hmove.read
    | writable => exact hmove.write

/-- Every poll is for a direction when that of the activity that moves is. -/
theorem polls_move {calls calls' : T → CallPc F W}
    (h : ∀ t i, pollsFor (calls t) = some i → ∃ d : Direction, i = d.interest)
    (hcalls : calls' = Function.update calls t pc)
    (hpc : ∀ i, pollsFor pc = some i → ∃ d : Direction, i = d.interest) (t' : T)
    (i : IoEventInterest) (hi : pollsFor (calls' t') = some i) :
    ∃ d : Direction, i = d.interest := by
  rw [hcalls] at hi
  by_cases heq : t' = t
  · subst heq
    rw [update_self] at hi
    exact hpc i hi
  · rw [update_of_ne heq] at hi
    exact h t' i hi

/-- A call begins. -/
theorem PollOk.begin {t : T} {pc : CallPc F W} (h : PollOk s)
    (hidle : s.registration.calls t = .idle) (htodo : todoOf pc = [])
    (hholds : callHolds pc = false) (hstore : storesNext pc = false)
    (hpolls : ∀ i, pollsFor pc = some i → ∃ d : Direction, i = d.interest) :
    PollOk ⟨s.registration.setCall t pc, s.log⟩ where
  lock := by
    refine CallMove.ok h.lock (callMove_of rfl rfl rfl (fun f hf => ?_) (.keep rfl fun hin => ?_))
    · rw [htodo] at hf
      cases hf
    · rw [hholds] at hin
      cases hin
  polls := polls_move h.polls rfl hpolls
  direction := fun d => by
    have hcalls : (s.registration.setCall t pc).calls =
        Function.update s.registration.calls t pc := rfl
    have hother : DirectionOk (s.registration.setCall t pc) ((s.log d).note none none) d := by
      refine (h.direction d).other hcalls rfl (by cases d <;> rfl) ?_ ?_ ?_ (Or.inl rfl)
      · rw [hidle]
        exact fun r hr => by cases hr
      · rintro w rfl
        cases hstore
      · rw [hidle]
        exact fun w hw => by cases hw
    rwa [note_none] at hother

/-- Every step keeps `PollOk`, if a poll is for one direction. -/
theorem PollOk.step {a : Action F T W} (h : PollOk s) (hguard : SingleInterest s a)
    (hstep : s.step a = some s') : PollOk s' := by
  obtain ⟨r, hr, rfl⟩ := Option.map_eq_some_iff.mp hstep
  cases a with
  | poll f w =>
      simp only [woken, returned, note_none]
      obtain ⟨⟨hidle, -⟩, rfl⟩ := Option.ite_some_none_eq_some.mp hr
      exact h.futureMove (futureMove_setFuture rfl (by rw [hidle]; rfl))
  | drop f =>
      simp only [woken, returned, note_none]
      obtain ⟨⟨hidle, -⟩, rfl⟩ := Option.ite_some_none_eq_some.mp hr
      exact h.futureMove (futureMove_setFuture rfl (by rw [hidle]; rfl))
  | advance f =>
      simp only [woken, returned, note_none]
      exact h.futureMove (advance_futureMove hr)
  | wake t state =>
      simp only [woken, returned, note_none]
      obtain ⟨hidle, rfl⟩ := Option.ite_some_none_eq_some.mp hr
      exact h.begin hidle rfl rfl rfl fun i hi => by cases hi
  | register t interest w =>
      simp only [woken, returned, note_none]
      obtain ⟨hidle, rfl⟩ := Option.ite_some_none_eq_some.mp hr
      refine h.begin hidle rfl rfl rfl fun i hi => ?_
      cases hi
      exact exists_direction hguard
  | step t =>
      obtain ⟨pc, hmove, heffect, hpolls⟩ := stepCall_callStep h.lock hr
      refine ⟨hmove.ok h.lock, polls_move h.polls hmove.calls fun i hi => ?_,
        fun d => (h.direction d).callStep h.lock (h.polls t) hmove heffect⟩
      rcases hpolls with hnone | hsame
      · rw [hnone] at hi
        cases hi
      · exact h.polls t i (hsame ▸ hi)
  | clear readiness interest =>
      simp only [woken, returned, note_none]
      cases hr
      refine ⟨⟨h.lock.locked, h.lock.listed, h.lock.todo⟩, h.polls, fun d => ?_⟩
      exact (h.direction d).congr rfl (has_clearReadiness _ _ _ d) (by cases d <;> rfl)

end Steps

/-- A `wake` in this place has marked the direction and has to take its slot, with the waker in it,
or it has taken the waker and has to wake it. -/
def willWake (slot : Option W) (d : Direction) (w : W) : CallPc F W → Prop
  | .wakeLock readiness | .slots readiness => readiness.has d = true ∧ slot = some w
  | .waiters _ _ kept | .waking kept => w ∈ kept
  | _ => False

theorem willWake_of_toTake {o : Option W} (htake : toTake pc = some readiness)
    (hd : readiness.has d = true) (ho : o = some w) : willWake o d w pc := by
  cases pc with
  | wakeLock r | slots r =>
      cases htake
      exact ⟨hd, ho⟩
  | _ => cases htake

theorem willWake_of_kept {o : Option W} (hw : w ∈ keptBy pc) : willWake o d w pc := by
  cases pc with
  | waiters r todo kept | waking kept => exact hw
  | _ => cases hw

/-- For every interleaving of any number of `wake` calls, `clear_readiness` calls and futures on the
registration with polls for `READABLE` and polls for `WRITABLE`, in every state and for each of the
two directions: if the last poll that returned has returned `Pending` and its waker has not been
woken since, then that waker is in the slot of the direction and the direction is not set in the
readiness word, or a `wake` that has marked the word is running and will wake that waker. A
readiness that a poll has returned has states, and only those of the interest it polled for. -/
theorem poll_readiness_not_lost (interests : F → IoEventInterest) {s : PollSystem F T W}
    (hrun : Reaches PollSystem.step SingleInterest (PollSystem.new interests) s) (d : Direction) :
    (∀ w, (s.log d).pending = some w → (s.log d).woken = false →
      (slot s.registration d = some w ∧ s.registration.readiness.has d = false) ∨
        ∃ t, willWake (slot s.registration d) d w (s.registration.calls t)) ∧
    ∀ r, (s.log d).reported = some r → IsPartOf r d.interest := by
  have hok : PollOk s :=
    hrun.invariant (pollOk_new interests) fun _ _ _ hok hguard hstep => hok.step hguard hstep
  have hd := hok.direction d
  refine ⟨fun w hpending hwoken => ?_, hd.reported⟩
  rcases hd.waits w hpending hwoken with ⟨hslot, hcovered⟩ | ⟨t, hw⟩
  · cases hset : s.registration.readiness.has d with
    | false => exact Or.inl ⟨hslot, rfl⟩
    | true =>
        obtain ⟨t, readiness, htake, hhas⟩ := hcovered hset
        exact Or.inr ⟨t, willWake_of_toTake htake hhas hslot⟩
  · exact Or.inr ⟨t, willWake_of_kept hw⟩

/-- One reader, one writer and the driver, and no futures. -/
abbrev ReaderWriter := PollSystem Empty (Fin 3) (Fin 3)

instance (s : ReaderWriter) (a : Action Empty (Fin 3) (Fin 3)) : Decidable (SingleInterest s a) :=
  inferInstanceAs (Decidable (singleInterest a = true))

/-- The reader is about to store its waker when the driver marks the word. The poll returns
`Pending` with the direction set, and the `wake` of the driver waits for the lock. -/
theorem poll_readiness_not_lost_marked :
    ∃ s : ReaderWriter, Reaches PollSystem.step SingleInterest (.new fun _ => .readable) s ∧
      ((s.log .readable).pending = some 0 ∧ (s.log .readable).woken = false) ∧
      s.registration.readiness.has .readable = true ∧
      ∃ t, willWake (slot s.registration .readable) .readable 0 (s.registration.calls t) := by
  have hexists : ∃ s : ReaderWriter,
      Reaches PollSystem.step SingleInterest (.new fun _ => .readable) s ∧
        ((s.log .readable).pending = some 0 ∧ (s.log .readable).woken = false) ∧
        s.registration.readiness.has .readable = true :=
    exists_reaches
      [.register 0 .readable 0, .step 0, .step 0, .step 0, .wake 2 ⟨1⟩, .step 2, .step 0]
      (by decide)
  obtain ⟨s, hrun, ⟨hpending, hwoken⟩, hset⟩ := hexists
  refine ⟨s, hrun, ⟨hpending, hwoken⟩, hset, ?_⟩
  rcases (poll_readiness_not_lost _ hrun .readable).1 0 hpending hwoken with ⟨-, hclear⟩ | hwill
  · rw [hset] at hclear
    cases hclear
  · exact hwill

end Kyron.Proofs.Io
