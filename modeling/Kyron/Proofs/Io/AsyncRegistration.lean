import Mathlib.Data.Fintype.Basic
import Mathlib.Data.List.Nodup
import Kyron.Proofs.Io.Readiness

/-!
# `Kyron.Proofs.Io.AsyncRegistration`: a pending waiter stays registered

`RegistrationOk` is the invariant. A future in the list of waiters has been polled and is not
dropped. A future whose last poll returned `Pending` and whose waker has not been woken since
is in the list with that waker, or a running `wake` has taken the waker and still has to wake
it.

One step can break it. A future that has been polled before and finds its interest not ready
returns `Pending` without looking at the list. If a `wake` has unlinked it meanwhile, and the
readiness was consumed by another task, it is not registered any more. The readiness that a
`wake` has marked must therefore last until the waiters that it unlinks have been polled again.
`KeepsReadiness` says so of the calls: no `clear_readiness` takes away what a running `wake` has
marked or what an unlinked waiter has not seen yet, and a future is polled again with the waker that
it has stored. The invariant then has an unlinked waiter's interest ready until its next poll, so a
poll that finds nothing ready is still in the list.

* `pending_waiter_registered`: with that condition on the calls the guarantee holds in every
  state.
* `repolled_waiter_lost`: without it there is a run that loses a waiter.
-/

set_option autoImplicit false
set_option linter.unusedSectionVars false

namespace Kyron.Proofs.Io

open Kyron.Containers
open Kyron.Io
open Kyron.Lib
open Function

variable {F T W : Type}

/-- The wakers that an activity has taken from the waiters or the slots and has to wake. -/
def keptBy : CallPc F W → List W
  | .waiters _ _ kept => kept
  | .waking kept => kept
  | _ => []

/-- The waiters that an activity still has to look at. -/
def todoOf : CallPc F W → List F
  | .waiters _ todo _ => todo
  | _ => []

/-- The readiness that a running `wake` has marked, up to the end of its pass over the waiters. -/
def markedBy : CallPc F W → Option ReadinessState
  | .wakeLock readiness | .slots readiness | .waiters readiness _ _ => some readiness
  | _ => none

/-- The future is not in a call, or in a poll that has not read the readiness yet. -/
def beforeReady : FuturePc W → Bool
  | .idle | .isReady _ => true
  | _ => false

/-- A future that has been polled and whose next poll has not read the readiness yet. -/
def AwaitsPoll (r : ReadinessFuture W) : Prop :=
  r.state = .polled ∧ r.dropped = false ∧ beforeReady r.pc = true

instance (r : ReadinessFuture W) : Decidable (AwaitsPoll r) :=
  inferInstanceAs (Decidable (_ ∧ _ ∧ _))

/-- Some running `wake` has taken the waker and still has to wake it. -/
def Held (calls : T → CallPc F W) (w : W) : Prop := ∃ t, w ∈ keptBy (calls t)

/-- What holds of a future by the place where it stands. -/
def PlaceOk (r : ReadinessFuture W) : FuturePc W → Prop
  | .isReady w => r.lastWaker = some w ∧ r.dropped = false ∧ r.pending = false ∧
      (r.state = .polled → r.waker = some w)
  | .lock w | .recheck w | .push w => r.lastWaker = some w ∧ r.dropped = false ∧ r.state = .new
  | .removeLock (some _) | .remove (some _) => r.pending = false
  | _ => True

/-- The invariant of one future, for the readiness, the waiters in the list and the wakers held.
A waiter that was unlinked finds its interest ready at its next poll. -/
structure FutureOk (word : ReadinessState) (waiters : List F) (held : W → Prop) (f : F)
    (r : ReadinessFuture W) : Prop where
  listed : f ∈ waiters → r.state = .polled ∧ r.dropped = false ∧ r.waker.isSome = true
  place : PlaceOk r r.pc
  waits : r.pending = true → r.dropped = false → r.woken = false →
    (f ∈ waiters ∧ r.waker = r.lastWaker) ∨ ∃ w, r.lastWaker = some w ∧ held w
  ready : AwaitsPoll r → f ∉ waiters → (word.isReady r.interest).isSome = true

/-- The invariant of a registration. A waiter that some `wake` still has to look at has stored
its waker, and what a running `wake` has marked is still set. -/
structure RegistrationOk (s : Registration F T W) : Prop where
  nodup : s.waiters.Nodup
  stored : ∀ t, ∀ f ∈ todoOf (s.calls t), (s.futures f).waker.isSome = true
  marked : ∀ t, ∀ r ∈ markedBy (s.calls t), ∀ d, r.has d = true → s.readiness.has d = true
  future : ∀ f, FutureOk s.readiness s.waiters (Held s.calls) f (s.futures f)

/-! ### Changes that keep it -/

section Frame

variable {word : ReadinessState} {waiters waiters' : List F} {held held' : W → Prop} {f : F}
  {r : ReadinessFuture W}

/-- A future keeps its invariant when its own membership stays and no waker is let go. -/
theorem FutureOk.frame (h : FutureOk word waiters held f r) (hmem : f ∈ waiters' ↔ f ∈ waiters)
    (hheld : ∀ w, held w → held' w) : FutureOk word waiters' held' f r where
  listed := fun hf => h.listed (hmem.mp hf)
  place := h.place
  waits := by
    intro hp hd hw
    rcases h.waits hp hd hw with ⟨hf, hwaker⟩ | ⟨w, hlast, hw⟩
    · exact Or.inl ⟨hmem.mpr hf, hwaker⟩
    · exact Or.inr ⟨w, hlast, hheld w hw⟩
  ready := fun hawaits hout => h.ready hawaits (mt hmem.mpr hout)

/-- A future that was never polled to the end is not in the list. -/
theorem FutureOk.not_mem_of_new (h : FutureOk word waiters held f r) (hnew : r.state = .new) :
    f ∉ waiters := by
  intro hmem
  have hpolled := (h.listed hmem).1
  rw [hnew] at hpolled
  cases hpolled

/-- A future that only moves, to a place after the readiness was read. -/
theorem FutureOk.goto {pc : FuturePc W} (h : FutureOk word waiters held f r)
    (hplace : PlaceOk r pc) (hpc : beforeReady pc = false) :
    FutureOk word waiters held f { r with pc } where
  listed := h.listed
  place := hplace
  waits := h.waits
  ready := by
    rintro ⟨-, -, hbefore⟩
    rw [hpc] at hbefore
    cases hbefore

end Frame

variable [DecidableEq F] [DecidableEq T] [DecidableEq W] {s s' : Registration F T W}

/-- The waiters to be looked at still have their waker when one future changes and has its own. -/
theorem RegistrationOk.stored_update (h : RegistrationOk s) {f : F} {r : ReadinessFuture W}
    (hwaker : (s.futures f).waker.isSome = true → r.waker.isSome = true) (t : T) :
    ∀ g ∈ todoOf (s.calls t), (Function.update s.futures f r g).waker.isSome = true := by
  intro g hg
  have hstored := h.stored t g hg
  by_cases heq : g = f
  · subst heq
    rw [update_self]
    exact hwaker hstored
  · rwa [update_of_ne heq]

/-- A change of one future. -/
theorem RegistrationOk.setFuture (h : RegistrationOk s) {f : F} {r : ReadinessFuture W}
    (hwaker : r.waker = (s.futures f).waker)
    (hr : FutureOk s.readiness s.waiters (Held s.calls) f r) :
    RegistrationOk (s.setFuture f r) where
  nodup := h.nodup
  stored := h.stored_update (by rw [hwaker]; exact id)
  marked := h.marked
  future := by
    intro g
    unfold Registration.setFuture
    by_cases hg : g = f
    · subst hg
      simpa using hr
    · simpa [hg] using h.future g

/-- A future moves to another program counter and leaves the rest of itself alone. -/
theorem RegistrationOk.goto (h : RegistrationOk s) {f : F} {pc : FuturePc W}
    (hplace : PlaceOk (s.futures f) pc) (hpc : beforeReady pc = false) :
    RegistrationOk (s.setFuture f { s.futures f with pc := pc }) :=
  h.setFuture rfl ((h.future f).goto hplace hpc)

variable {pc : CallPc F W} {t : T}

/-- The waiters that are to be looked at when one activity moves on. -/
theorem RegistrationOk.stored_setCall (h : RegistrationOk s)
    (htodo : ∀ f ∈ todoOf pc, f ∈ todoOf (s.calls t) ∨ f ∈ s.waiters) (t' : T) :
    ∀ f ∈ todoOf (Function.update s.calls t pc t'), (s.futures f).waker.isSome = true := by
  intro f hf
  by_cases ht : t' = t
  · subst ht
    rw [update_self] at hf
    rcases htodo f hf with hf | hf
    · exact h.stored t' f hf
    · exact ((h.future f).listed hf).2.2
  · rw [update_of_ne ht] at hf
    exact h.stored t' f hf

/-- What the running calls have marked when one activity moves on. -/
theorem RegistrationOk.marked_setCall (h : RegistrationOk s)
    (hmarked : ∀ r ∈ markedBy pc, ∀ d, r.has d = true → s.readiness.has d = true) (t' : T) :
    ∀ r ∈ markedBy (Function.update s.calls t pc t'), ∀ d, r.has d = true →
      s.readiness.has d = true := by
  by_cases ht : t' = t
  · subst ht
    rwa [update_self]
  · rw [update_of_ne ht]
    exact h.marked t'

/-- A move of one activity that lets go of no waker. -/
theorem RegistrationOk.setCall (h : RegistrationOk s)
    (htodo : ∀ f ∈ todoOf pc, f ∈ todoOf (s.calls t) ∨ f ∈ s.waiters)
    (hmarked : ∀ r ∈ markedBy pc, ∀ d, r.has d = true → s.readiness.has d = true)
    (hkept : ∀ w ∈ keptBy (s.calls t), w ∈ keptBy pc) : RegistrationOk (s.setCall t pc) where
  nodup := h.nodup
  stored := h.stored_setCall htodo
  marked := h.marked_setCall hmarked
  future := by
    intro f
    refine (h.future f).frame Iff.rfl ?_
    rintro w ⟨t', hw⟩
    by_cases ht : t' = t
    · subst ht
      exact ⟨t', by simpa [Registration.setCall] using hkept w hw⟩
    · exact ⟨t', by simpa [Registration.setCall, ht] using hw⟩

/-- The slots and the lock do not matter to the invariant. -/
theorem RegistrationOk.congr (h : RegistrationOk s) (hword : s'.readiness = s.readiness)
    (hwaiters : s'.waiters = s.waiters) (hfutures : s'.futures = s.futures)
    (hcalls : s'.calls = s.calls) : RegistrationOk s' where
  nodup := hwaiters ▸ h.nodup
  marked := by
    rw [hcalls, hword]
    exact h.marked
  stored := by
    rw [hcalls, hfutures]
    exact h.stored
  future := by
    intro f
    rw [hword, hwaiters, hfutures, hcalls]
    exact h.future f

/-- A change of the word that keeps what was marked and what an unlinked waiter is to find. -/
theorem RegistrationOk.setWord (h : RegistrationOk s) {word : ReadinessState}
    (hmarked : ∀ t, ∀ r ∈ markedBy (s.calls t), ∀ d, r.has d = true → word.has d = true)
    (hready : ∀ f, AwaitsPoll (s.futures f) → f ∉ s.waiters →
      (word.isReady (s.futures f).interest).isSome = true) :
    RegistrationOk { s with readiness := word } where
  nodup := h.nodup
  stored := h.stored
  marked := hmarked
  future := fun f => ⟨(h.future f).listed, (h.future f).place, (h.future f).waits, hready f⟩

/-- An activity wakes a waker and lets go of nothing else. -/
theorem RegistrationOk.wakeWaker (h : RegistrationOk s) (w : W)
    (htodo : ∀ f ∈ todoOf pc, f ∈ todoOf (s.calls t) ∨ f ∈ s.waiters)
    (hmarked : ∀ r ∈ markedBy pc, ∀ d, r.has d = true → s.readiness.has d = true)
    (hkept : ∀ w' ∈ keptBy (s.calls t), w' ≠ w → w' ∈ keptBy pc) :
    RegistrationOk ((s.wakeWaker w).setCall t pc) where
  nodup := h.nodup
  marked := h.marked_setCall hmarked
  stored := by
    intro t' f hf
    have hstored := h.stored_setCall htodo t' f hf
    show (if (s.futures f).lastWaker = some w then { s.futures f with woken := true }
      else s.futures f).waker.isSome = true
    split <;> exact hstored
  future := by
    intro f
    have hf := h.future f
    show FutureOk s.readiness s.waiters (Held (Function.update s.calls t pc)) f
      (if (s.futures f).lastWaker = some w then { s.futures f with woken := true }
        else s.futures f)
    by_cases hlast : (s.futures f).lastWaker = some w
    · rw [if_pos hlast]
      exact ⟨hf.listed, hf.place, by simp, hf.ready⟩
    · -- Another waker is its last one, so what held that one still does.
      rw [if_neg hlast]
      refine ⟨hf.listed, hf.place, fun hp hd hw => ?_, hf.ready⟩
      rcases hf.waits hp hd hw with hin | ⟨w', hlast', t', hw'⟩
      · exact Or.inl hin
      · refine Or.inr ⟨w', hlast', t', ?_⟩
        by_cases ht : t' = t
        · subst ht
          simpa using hkept w' hw' fun heq => hlast (heq ▸ hlast')
        · simpa [ht] using hw'

/-- A waiter is unlinked after its waker has been taken or woken, while its interest is ready. -/
theorem RegistrationOk.unlink (h : RegistrationOk s) {f : F}
    (hready : (s.readiness.isReady (s.futures f).interest).isSome = true)
    (hf : (s.futures f).pending = true → (s.futures f).dropped = false →
      (s.futures f).woken = false → ∃ w, (s.futures f).lastWaker = some w ∧ Held s.calls w) :
    RegistrationOk { s with waiters := s.waiters.erase f } where
  nodup := h.nodup.erase f
  stored := h.stored
  marked := h.marked
  future := by
    intro g
    by_cases hg : g = f
    · subst hg
      exact ⟨fun hmem => (h.future g).listed (List.mem_of_mem_erase hmem), (h.future g).place,
        fun hp hd hw => Or.inr (hf hp hd hw), fun _ _ => hready⟩
    · exact (h.future g).frame (List.mem_erase_of_ne hg) fun _ => id

/-! ### The steps of a future -/

/-- What `remove` leaves: the other waiters, in any case without the item. -/
theorem removeSpec_some {xs ys : List F} {f : F} {found : Bool} (hnodup : xs.Nodup)
    (h : IntrusiveList.removeSpec xs f = some (found, ys)) :
    ys.Nodup ∧ f ∉ ys ∧ ∀ g, g ≠ f → (g ∈ ys ↔ g ∈ xs) := by
  unfold IntrusiveList.removeSpec at h
  split at h
  · cases h
    exact ⟨hnodup.erase f, hnodup.not_mem_erase, fun g hg => List.mem_erase_of_ne hg⟩
  · rename_i hmem
    split at h
    · cases h
      exact ⟨hnodup, hmem, fun _ _ => Iff.rfl⟩
    · cases h

/-- A future leaves the list, and changes otherwise only in ways that ask nothing of the
list. -/
theorem RegistrationOk.leave (h : RegistrationOk s) {f : F} {r : ReadinessFuture W} {found : Bool}
    {ys : List F} (hremove : IntrusiveList.removeSpec s.waiters f = some (found, ys))
    (hwaker : r.waker = (s.futures f).waker) (hplace : PlaceOk r r.pc)
    (hdone : r.pending = true → r.dropped = true) (hend : ¬ AwaitsPoll r) :
    RegistrationOk ({ s with lock := none, waiters := ys }.setFuture f r) := by
  obtain ⟨hnodup, hout, hothers⟩ := removeSpec_some h.nodup hremove
  refine ⟨hnodup, h.stored_update (by rw [hwaker]; exact id), h.marked, fun g => ?_⟩
  show FutureOk s.readiness ys (Held s.calls) g (Function.update s.futures f r g)
  by_cases hg : g = f
  · subst hg
    rw [update_self]
    refine ⟨fun hmem => absurd hmem hout, hplace, fun hp hd _ => ?_, fun h => absurd h hend⟩
    rw [hdone hp] at hd
    cases hd
  · rw [update_of_ne hg]
    exact (h.future g).frame (hothers g hg) fun _ => id

/-- A future that returns `Pending` after it has linked its node. -/
theorem RegistrationOk.link (h : RegistrationOk s) {f : F} {w : W}
    (hpc : (s.futures f).pc = .push w) :
    RegistrationOk ({ s with lock := none, waiters := s.waiters ++ [f] }.setFuture f
      { s.futures f with waker := some w, state := .polled, pc := .idle, pending := true }) := by
  have hf := h.future f
  have hplace := hf.place
  rw [hpc] at hplace
  obtain ⟨hlast, hdropped, hnew⟩ := hplace
  -- Only a future in state `new` is pushed, so no node is linked twice.
  have hout : f ∉ s.waiters := hf.not_mem_of_new hnew
  refine ⟨?_, h.stored_update fun _ => rfl, h.marked, fun g => ?_⟩
  · refine List.nodup_append.mpr ⟨h.nodup, by simp, fun a ha b hb heq => hout ?_⟩
    rw [← List.mem_singleton.mp hb, ← heq]
    exact ha
  · show FutureOk s.readiness (s.waiters ++ [f]) (Held s.calls) g (Function.update s.futures f _ g)
    by_cases hg : g = f
    · subst hg
      rw [update_self]
      exact ⟨fun _ => ⟨rfl, hdropped, rfl⟩, trivial, fun _ _ _ => Or.inl ⟨by simp, hlast.symm⟩,
        fun _ hout => absurd (List.mem_append_right _ (List.mem_singleton_self g)) hout⟩
    · rw [update_of_ne hg]
      exact (h.future g).frame (by simp [hg]) fun _ => id

/-- The steps of a future in `poll` and `drop`. -/
theorem advance_ok (h : RegistrationOk s) {f : F} (hstep : s.advance f = some s') :
    RegistrationOk s' := by
  have hf := h.future f
  have hplace := hf.place
  unfold Registration.advance at hstep
  dsimp only at hstep
  have hfinish : (s.futures f).state = .new → RegistrationOk (s.finishPoll f) := by
    intro hnew
    exact h.setFuture rfl ⟨fun hmem => absurd hmem (hf.not_mem_of_new hnew), trivial, hf.waits,
      fun hawaits => nomatch hawaits.1⟩
  cases hpc : (s.futures f).pc with
  | idle | hung =>
      rw [hpc] at hstep
      cases hstep
  | isReady w =>
      rw [hpc] at hstep hplace
      obtain ⟨hlast, hdropped, hpending, hstored⟩ := hplace
      dsimp only at hstep
      split at hstep
      · -- A first poll that finds the interest ready.
        rename_i hnew _
        cases hstep
        exact hfinish hnew
      · -- A first poll that does not: it goes on to link its node.
        rename_i hnew _
        cases hstep
        exact h.goto ⟨hlast, hdropped, hnew⟩ rfl
      · -- A later poll that finds it ready has to unlink the node.
        cases hstep
        exact h.goto hpending rfl
      · -- A later poll that does not returns `Pending` at once, with the list unread. An unlinked
        -- waiter would have found its interest ready, so this one is linked.
        rename_i hpolled hready
        cases hstep
        have hmem : f ∈ s.waiters := by
          by_contra hout
          have hsome := hf.ready ⟨hpolled, hdropped, by rw [hpc]; rfl⟩ hout
          rw [hready] at hsome
          cases hsome
        exact h.setFuture rfl ⟨fun _ => ⟨rfl, hdropped, (hf.listed hmem).2.2⟩, trivial,
          fun _ _ _ => Or.inl ⟨hmem, (hstored hpolled).trans hlast.symm⟩,
          fun _ hout => absurd hmem hout⟩
      · cases hstep
  | lock w =>
      rw [hpc] at hstep hplace
      obtain ⟨-, rfl⟩ := Option.ite_some_none_eq_some.mp hstep
      have hnext : PlaceOk (s.futures f) (.recheck w) := hplace
      exact (h.goto hnext rfl).congr rfl rfl rfl rfl
  | recheck w =>
      rw [hpc] at hstep hplace
      dsimp only at hstep
      split at hstep
      · cases hstep
        exact (hfinish hplace.2.2).congr rfl rfl rfl rfl
      · cases hstep
        exact h.goto hplace rfl
  | push w =>
      rw [hpc] at hstep
      cases hstep
      exact h.link hpc
  | removeLock result =>
      rw [hpc] at hstep hplace
      obtain ⟨-, rfl⟩ := Option.ite_some_none_eq_some.mp hstep
      have hnext : PlaceOk (s.futures f) (.remove result) := by
        cases result with
        | none => trivial
        | some readiness => exact hplace
      exact (h.goto hnext rfl).congr rfl rfl rfl rfl
  | remove result =>
      rw [hpc] at hstep hplace
      dsimp only at hstep
      split at hstep
      · -- `remove` walks the ring for ever.
        cases hstep
        exact h.goto trivial rfl
      · rename_i hremove
        cases result with
        | some readiness =>
            cases hstep
            refine h.leave hremove rfl trivial (fun hp => ?_) fun hawaits => nomatch hawaits.1
            change (s.futures f).pending = false at hplace
            rw [show (s.futures f).pending = true from hp] at hplace
            cases hplace
        | none =>
            cases hstep
            exact h.leave hremove rfl trivial (fun _ => rfl) fun hawaits => nomatch hawaits.2.1

/-! ### The steps of an activity -/

/-- A waiter that matches is unlinked, and its waker is kept or woken at once. -/
theorem wakeWaiter_ok (h : RegistrationOk s) {readiness : ReadinessState} {f : F} {todo : List F}
    {kept : List W} (hpc : s.calls t = .waiters readiness (f :: todo) kept) :
    RegistrationOk (s.wakeWaiter t readiness f todo kept) := by
  have htodo : ∀ g ∈ todo, g ∈ todoOf (s.calls t) ∨ g ∈ s.waiters := by
    intro g hg
    rw [hpc]
    exact Or.inl (List.mem_cons_of_mem f hg)
  have hmarked : ∀ d, readiness.has d = true → s.readiness.has d = true :=
    h.marked t readiness (by rw [hpc]; rfl)
  have hpass : ∀ r ∈ (some readiness : Option ReadinessState), ∀ d, r.has d = true →
      s.readiness.has d = true := by
    rintro r hr
    cases hr
    exact hmarked
  unfold Registration.wakeWaiter
  dsimp only
  split
  · exact h.setCall htodo hpass (by rw [hpc]; exact fun w hw => hw)
  · rename_i hmeets
    -- What the `wake` has marked is still set, so the waiter's next poll will see it.
    have hready : (s.readiness.isReady (s.futures f).interest).isSome = true := by
      obtain ⟨d, hd, hi⟩ := (intersection_isSome _ _).mp (by rw [hmeets]; rfl)
      exact (intersection_isSome _ _).mpr ⟨d, hmarked d hd, hi⟩
    split
    · rename_i hnone
      have hstored := h.stored t f (by rw [hpc]; exact List.mem_cons_self)
      rw [hnone] at hstored
      cases hstored
    · rename_i w hwaker
      split
      · -- The waker moves from the node to the wakers kept.
        have hkept : RegistrationOk (s.setCall t (.waiters readiness todo (kept ++ [w]))) :=
          h.setCall htodo hpass (by rw [hpc]; exact fun w hw => List.mem_append_left _ hw)
        refine hkept.unlink hready fun hp hd hw => ?_
        rcases (hkept.future f).waits hp hd hw with ⟨-, heq⟩ | hheld
        · refine ⟨w, heq.symm.trans hwaker, t, ?_⟩
          simp [Registration.setCall, keptBy]
        · exact hheld
      · -- No room is left for the waker, so it is woken here.
        have hwoken : RegistrationOk ((s.wakeWaker w).setCall t (.waiters readiness todo kept)) :=
          h.wakeWaker w htodo hpass (by rw [hpc]; exact fun w' hw' _ => hw')
        refine hwoken.unlink ?_ fun hp hd hw => ?_
        · simp only [Registration.setCall, Registration.wakeWaker]
          split <;> exact hready
        rcases (hwoken.future f).waits hp hd hw with ⟨-, heq⟩ | hheld
        · exfalso
          simp only [Registration.setCall, Registration.wakeWaker] at hw heq
          split at hw
          · cases hw
          · rename_i hlast
            rw [if_neg hlast, hwaker] at heq
            exact hlast heq.symm
        · exact hheld

/-- An activity moves to a place where it has no waiter to look at, marks nothing new and keeps
its wakers. -/
theorem RegistrationOk.gotoCall (h : RegistrationOk s) (hpc : todoOf pc = [])
    (hmarked : ∀ r ∈ markedBy pc, r ∈ markedBy (s.calls t))
    (hkept : keptBy (s.calls t) ⊆ keptBy pc) :
    RegistrationOk (s.setCall t pc) := by
  refine h.setCall (fun f hf => ?_) (fun r hr => h.marked t r (hmarked r hr)) fun w hw => hkept hw
  rw [hpc] at hf
  cases hf

/-- `mark_state` only adds to the word. -/
theorem RegistrationOk.mark (h : RegistrationOk s) (state : ReadinessState) :
    RegistrationOk { s with readiness := s.readiness.markState state } := by
  refine h.setWord (fun t r hr d hd => ?_) fun f hawaits hout => ?_
  · rw [has_markState, h.marked t r hr d hd, Bool.true_or]
  · obtain ⟨d, hd, hi⟩ := (intersection_isSome _ _).mp ((h.future f).ready hawaits hout)
    exact (intersection_isSome _ _).mpr ⟨d, by rw [has_markState, hd, Bool.true_or], hi⟩

/-- The steps of `wake` and of `poll_register_interest`. -/
theorem stepCall_ok (h : RegistrationOk s) (hstep : s.stepCall t = some s') :
    RegistrationOk s' := by
  unfold Registration.stepCall at hstep
  have hgoto : keptBy (s.calls t) = [] → ∀ pc : CallPc F W, todoOf pc = [] →
      (∀ r ∈ markedBy pc, r ∈ markedBy (s.calls t)) → RegistrationOk (s.setCall t pc) := by
    intro hnone pc htodo hmarked
    exact h.gotoCall htodo hmarked (by simp [hnone])
  cases hpc : s.calls t with
  | idle | panicked =>
      rw [hpc] at hstep
      cases hstep
  | mark state =>
      rw [hpc] at hstep
      cases hstep
      refine (h.mark state).setCall (fun f hf => nomatch hf) ?_ (by rw [hpc]; exact fun w hw => hw)
      rintro r hr d hd
      cases hr
      exact hd
  | wakeLock readiness =>
      rw [hpc] at hstep
      obtain ⟨-, rfl⟩ := Option.ite_some_none_eq_some.mp hstep
      refine (hgoto (by rw [hpc]; rfl) (.slots readiness) rfl ?_).congr rfl rfl rfl rfl
      rw [hpc]
      exact fun r hr => hr
  | slots readiness =>
      rw [hpc] at hstep
      cases hstep
      have hslots : RegistrationOk (s.setCall t (.waiters readiness s.waiters
          ((if readiness.isReadable then s.read.toList else []) ++
            (if readiness.isWritable then s.write.toList else [])))) :=
        h.setCall (fun f hf => Or.inr hf) (fun r hr => h.marked t r (by rw [hpc]; exact hr))
          (by rw [hpc]; exact fun w hw => nomatch hw)
      exact hslots.congr rfl rfl rfl rfl
  | waiters readiness todo kept =>
      cases todo with
      | cons f todo =>
          rw [hpc] at hstep
          cases hstep
          exact wakeWaiter_ok h hpc
      | nil =>
          rw [hpc] at hstep
          cases hstep
          have hwaking : RegistrationOk (s.setCall t (.waking kept)) :=
            h.gotoCall rfl (fun r hr => nomatch hr) (by rw [hpc]; exact fun w hw => hw)
          exact hwaking.congr rfl rfl rfl rfl
  | waking kept =>
      cases kept with
      | cons w kept =>
          rw [hpc] at hstep
          cases hstep
          refine h.wakeWaker w (fun f hf => nomatch hf) (fun r hr => nomatch hr) ?_
          rw [hpc]
          intro w' hw' hne
          exact (List.mem_cons.mp hw').resolve_left hne
      | nil =>
          rw [hpc] at hstep
          cases hstep
          exact h.gotoCall rfl (fun r hr => nomatch hr) (by rw [hpc]; exact fun w hw => hw)
  | registerReady interest w | registerRecheck interest w =>
      rw [hpc] at hstep
      dsimp only at hstep
      split at hstep
      all_goals
        cases hstep
        first
        | exact hgoto (by rw [hpc]; rfl) _ rfl fun r hr => nomatch hr
        | exact (hgoto (by rw [hpc]; rfl) .idle rfl fun r hr => nomatch hr).congr rfl rfl rfl rfl
  | registerLock interest w =>
      rw [hpc] at hstep
      obtain ⟨-, rfl⟩ := Option.ite_some_none_eq_some.mp hstep
      exact (hgoto (by rw [hpc]; rfl) (.registerRecheck interest w) rfl
        fun r hr => nomatch hr).congr rfl rfl rfl rfl
  | registerStore interest w =>
      rw [hpc] at hstep
      dsimp only at hstep
      split at hstep
      all_goals
        cases hstep
        exact (hgoto (by rw [hpc]; rfl) .idle rfl fun r hr => nomatch hr).congr rfl rfl rfl rfl

/-! ### Every step, and whole runs -/

/-- The condition on a call. A future that has been polled before is polled with the waker that
it has stored. A `clear_readiness` that has an effect takes away nothing that a running `wake` has
marked, and nothing of the interest of a waiter that was unlinked and has not been polled since. -/
def KeepsReadiness (s : Registration F T W) : Action F T W → Prop
  | .poll f w => (s.futures f).state = .polled → (s.futures f).waker = some w
  | .clear readiness interest =>
      s.readiness.clearReadiness readiness interest = none ∨
        (∀ t, ∀ r ∈ markedBy (s.calls t), r.isReady interest = none) ∧
          ∀ f, AwaitsPoll (s.futures f) → f ∉ s.waiters →
            (ReadinessState.ofInterest interest).isReady (s.futures f).interest = none
  | _ => True

/-- A word and an interest that do not meet have no direction in common. -/
theorem not_has_of_isReady_eq_none {r : ReadinessState} {i : IoEventInterest} {d : Direction}
    (h : r.isReady i = none) (hd : r.has d = true) : i.has d = false := by
  cases hi : i.has d with
  | false => rfl
  | true =>
      have hsome := (intersection_isSome r i).mpr ⟨d, hd, hi⟩
      rw [show r.intersection _ = none from h] at hsome
      cases hsome

/-- The guard says that no unlinked waiter and no running `wake` needs what is cleared. -/
theorem clearReadiness_ok (h : RegistrationOk s) {readiness : ReadinessState}
    {interest : IoEventInterest} (hguard : KeepsReadiness s (.clear readiness interest)) :
    RegistrationOk { s with
      readiness := (s.readiness.clearReadiness readiness interest).getD s.readiness } := by
  rcases hguard with hnone | ⟨hmarked, hunlinked⟩
  · rw [hnone]
    exact h
  · unfold ReadinessState.clearReadiness
    split
    · exact h
    split
    · exact h
    refine h.setWord (fun t r hr d hd => ?_) fun f hawaits hout => ?_
    · rw [Option.getD_some, has_clear, h.marked t r hr d hd, has_ofInterest,
        not_has_of_isReady_eq_none (hmarked t r hr) hd]
      rfl
    · obtain ⟨d, hd, hi⟩ := (intersection_isSome _ _).mp ((h.future f).ready hawaits hout)
      refine (intersection_isSome _ _).mpr ⟨d, ?_, hi⟩
      rw [Option.getD_some, has_clear, hd, Bool.true_and, Bool.not_eq_true']
      -- A direction that was cleared would be one of the waiter's interest.
      by_contra hcleared
      rw [Bool.not_eq_false] at hcleared
      rw [not_has_of_isReady_eq_none (hunlinked f hawaits hout) hcleared] at hi
      cases hi

/-- Every guarded step keeps the invariant. -/
theorem step_ok {a : Action F T W} (h : RegistrationOk s) (hguard : KeepsReadiness s a)
    (hstep : s.step a = some s') : RegistrationOk s' := by
  cases a with
  | poll f w =>
      obtain ⟨⟨hidle, -, hdropped⟩, rfl⟩ := Option.ite_some_none_eq_some.mp hstep
      have hf := h.future f
      refine h.setFuture rfl ⟨hf.listed, ⟨rfl, hdropped, rfl, hguard⟩, fun hp => (nomatch hp), ?_⟩
      exact fun hawaits => hf.ready ⟨hawaits.1, hdropped, by rw [hidle]; rfl⟩
  | drop f =>
      obtain ⟨-, rfl⟩ := Option.ite_some_none_eq_some.mp hstep
      exact h.goto trivial rfl
  | advance f => exact advance_ok h hstep
  | wake t state =>
      obtain ⟨hidle, rfl⟩ := Option.ite_some_none_eq_some.mp hstep
      exact h.gotoCall rfl (fun r hr => nomatch hr) (by rw [hidle]; exact fun w hw => hw)
  | register t interest w =>
      obtain ⟨hidle, rfl⟩ := Option.ite_some_none_eq_some.mp hstep
      exact h.gotoCall rfl (fun r hr => nomatch hr) (by rw [hidle]; exact fun w hw => hw)
  | step t => exact stepCall_ok h hstep
  | clear readiness interest =>
      cases hstep
      exact clearReadiness_ok h hguard

theorem new_ok (interests : F → IoEventInterest) :
    RegistrationOk (Registration.new interests : Registration F T W) where
  nodup := List.nodup_nil
  stored := fun _ _ hf => nomatch hf
  marked := fun _ _ hr => nomatch hr
  future := fun _ => ⟨fun hmem => (nomatch hmem), trivial, fun hp => (nomatch hp),
    fun hawaits => nomatch hawaits.1⟩

instance decidableKeepsReadiness [Fintype F] [Fintype T] (s : Registration F T W) :
    (a : Action F T W) → Decidable (KeepsReadiness s a)
  | .poll _ _ => inferInstanceAs (Decidable (_ → _))
  | .clear _ _ => inferInstanceAs (Decidable (_ ∨ _ ∧ _))
  | .drop _ | .advance _ | .wake _ _ | .register _ _ _ | .step _ => .isTrue trivial

/-- In every run in which the readiness that a `wake` has marked lasts until the waiters that it
unlinks are polled again, and every later poll passes the waker that the future has stored, each
future that waits is in the list of waiters or has its waker held by a running `wake`, and no
dropped future is in the list. -/
theorem pending_waiter_registered (interests : F → IoEventInterest) {s : Registration F T W}
    (hrun : Reaches Registration.step KeepsReadiness (Registration.new interests) s) (f : F) :
    ((s.futures f).pending = true → (s.futures f).dropped = false →
        (s.futures f).woken = false →
        f ∈ s.waiters ∨ ∃ w, (s.futures f).lastWaker = some w ∧ Held s.calls w) ∧
      ((s.futures f).dropped = true → f ∉ s.waiters) := by
  have hok : RegistrationOk s :=
    hrun.invariant (new_ok interests) fun _ _ _ hok hguard hstep => step_ok hok hguard hstep
  have hf := hok.future f
  refine ⟨fun hp hd hw => ?_, fun hd hmem => ?_⟩
  · rcases hf.waits hp hd hw with ⟨hmem, -⟩ | hheld
    · exact Or.inl hmem
    · exact Or.inr hheld
  · have hlive := (hf.listed hmem).2.1
    rw [hd] at hlive
    cases hlive

/-- Two readers of one socket, one activity of the driver. -/
abbrev TwoReaders := Registration (Fin 2) (Fin 1) (Fin 2)

/-- A first poll of the future with the given waker that finds nothing and is linked. -/
def firstPoll (f w : Fin 2) : List (Action (Fin 2) (Fin 1) (Fin 2)) :=
  [.poll f w, .advance f, .advance f, .advance f, .advance f]

/-- A whole `wake` that reports the socket readable while one waiter is linked. -/
def wakeOne : List (Action (Fin 2) (Fin 1) (Fin 2)) :=
  [.wake 0 ⟨1⟩, .step 0, .step 0, .step 0, .step 0, .step 0, .step 0, .step 0]

/-- The second future is woken by a report, is polled again with its waker and finds the socket
readable, and the readiness is cleared. Then the first future waits, and the driver's next `wake`
has taken its waker but not yet woken it. -/
theorem pending_waiter_held :
    ∃ s : TwoReaders, Reaches Registration.step KeepsReadiness (.new fun _ => .readable) s ∧
      ((s.futures 0).pending = true ∧ (s.futures 0).dropped = false ∧
        (s.futures 0).woken = false) ∧ 0 ∉ s.waiters ∧
      ∃ w, (s.futures 0).lastWaker = some w ∧ Held s.calls w := by
  have hexists : ∃ s : TwoReaders,
      Reaches Registration.step KeepsReadiness (.new fun _ => .readable) s ∧
        ((s.futures 0).pending = true ∧ (s.futures 0).dropped = false ∧
          (s.futures 0).woken = false) ∧ 0 ∉ s.waiters :=
    exists_reaches
      (firstPoll 1 1 ++ wakeOne ++ [Action.poll 1 1, .advance 1, .advance 1, .advance 1] ++
        [Action.clear ⟨0x10001⟩ .readable] ++ firstPoll 0 0 ++ wakeOne.take 6) (by decide)
  obtain ⟨s, hrun, hwaits, hout⟩ := hexists
  refine ⟨s, hrun, hwaits, hout, ?_⟩
  exact ((pending_waiter_registered _ hrun 0).1 hwaits.1 hwaits.2.1 hwaits.2.2).resolve_left hout

/-- The first future is woken by a report, but the second one is polled first and consumes it:
it finds the socket readable and the readiness is cleared with the tick of the report. The
first future is then polled again, returns `Pending` and is registered nowhere, with no `wake`
running. -/
theorem repolled_waiter_lost :
    ∃ s : TwoReaders, Reaches Registration.step anyStep (.new fun _ => .readable) s ∧
      (s.futures 0).pending = true ∧ (s.futures 0).dropped = false ∧
      (s.futures 0).woken = false ∧ 0 ∉ s.waiters ∧ ∀ t, s.calls t = .idle :=
  exists_reaches
    (firstPoll 0 0 ++ wakeOne ++ [Action.poll 1 1, .advance 1, .clear ⟨0x10001⟩ .readable] ++
      [Action.poll 0 0, .advance 0]) (by decide)

end Kyron.Proofs.Io
