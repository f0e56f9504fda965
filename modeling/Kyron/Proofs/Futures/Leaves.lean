import Kyron.Proofs.Channels.BroadcastSlots
import Kyron.Proofs.Futures.Sleep
import Kyron.Proofs.Io.HangUp
import Kyron.Proofs.Task.Completion

/-!
# `Kyron.Proofs.Futures.Leaves`: which waker a leaf future wakes

`JoinHandle`, `Sleep` and `ReadinessFuture` store the waker of their first poll and never look at
the wakers of later polls. `ReceiverFuture` stores the waker of every poll, but only its data
pointer.

* `leaf_futures_wake_last`: where that makes no difference, the event wakes the waker of the last
  poll.
* `leaf_futures_wake_another`: for each of them a run in which it does make a difference.
-/

set_option autoImplicit false

namespace Kyron.Proofs.Futures

open Kyron.Channels
open Kyron.Futures
open Kyron.Lib
open Kyron.Scheduler

/-! ### `JoinHandle` -/

section Join

open Kyron.Task
open Kyron.Proofs.Task

variable {V P F : Type} {s s' : JoinTask V P F}

/-- What a transition before the completion leaves alone. -/
structure MoveKeeps (s s' : JoinTask V P F) : Prop where
  completed : s'.word.isCompleted = s.word.isCompleted
  attached : s'.word.hasJoinHandle = s.word.hasJoinHandle
  waker : s'.handleWaker = s.handleWaker
  state : s'.state = s.state

theorem moveKeeps_update {word : Option TaskStateSnapshot}
    (h : ∀ v ∈ word, v.isCompleted = s.word.isCompleted ∧
      v.hasJoinHandle = s.word.hasJoinHandle) : MoveKeeps s (s.update word) := by
  cases word with
  | none => exact ⟨rfl, rfl, rfl, rfl⟩
  | some v => exact ⟨(h v rfl).1, (h v rfl).2, rfl, rfl⟩

theorem move_keeps {a : TaskMove} (h : s.move a = some s') : MoveKeeps s s' := by
  cases a with
  | notify =>
      cases h
      refine moveKeeps_update fun v hv => ?_
      simp only [TaskState.setNotified] at hv
      split at hv <;> cases hv
      simp [hasJoinHandle_eq, isCompleted_eq, flag_setNotified]
  | notifySafety =>
      cases h
      refine moveKeeps_update fun v hv => ?_
      simp only [TaskState.setSafetyNotified] at hv
      split at hv <;> cases hv
      simp [hasJoinHandle_eq, isCompleted_eq, flag_setSafetyNotified]
  | run =>
      simp only [JoinTask.move] at h
      split at h <;> cases h
      rename_i word _ htransition
      refine moveKeeps_update fun v hv => ?_
      cases hv
      simp only [TaskState.transitionToRunning] at htransition
      split at htransition
      · cases htransition
      · split at htransition
        · cases htransition
        · split at htransition
          · cases htransition
          · split at htransition <;> cases htransition
            simp [hasJoinHandle_eq, isCompleted_eq, setRunning_eq_setIdle, flag_setIdle,
              flag_unsetNotified]
  | idle =>
      simp only [JoinTask.move] at h
      split at h <;> cases h
      rename_i word _ htransition
      refine moveKeeps_update fun v hv => ?_
      cases hv
      simp only [TaskState.transitionToIdle] at htransition
      split at htransition
      · cases htransition
      · split at htransition
        · cases htransition
        · split at htransition <;> cases htransition
          simp [hasJoinHandle_eq, isCompleted_eq, flag_setIdle]
  | abort =>
      cases h
      refine moveKeeps_update fun v hv => ?_
      simp only [TaskState.transitionToCanceled] at hv
      split at hv <;> cases hv
      simp [hasJoinHandle_eq, isCompleted_eq, flag_setCanceled]

/-- The first poll that returns `Pending` attaches the handle. -/
theorem poll_pending_new {waker : Waker P F} (hstate : s.state = .new)
    (h : s.poll waker = some (s', .pending)) :
    s'.state = .polled ∧ s'.handleWaker = some waker ∧ s'.word.isCompleted = false ∧
      s'.word.hasJoinHandle = true := by
  simp only [JoinTask.poll, hstate] at h
  split at h
  · rename_i hset
    simp only [JoinTask.setWaker, TaskState.setWaker] at h hset
    split at h
    · rename_i hdone
      rw [if_pos hdone] at hset
      cases hset
    · rename_i hopen
      cases h
      rw [Bool.or_eq_true, not_or, Bool.not_eq_true, isCompleted_eq] at hopen
      refine ⟨rfl, rfl, ?_, ?_⟩
      · simpa [isCompleted_eq, flag_setJoinHandle] using hopen.1
      · simp [hasJoinHandle_eq, flag_setJoinHandle]
  · split at h <;> cases h

/-- Every later one changes nothing. -/
theorem poll_pending_polled {waker : Waker P F} (hstate : s.state = .polled)
    (h : s.poll waker = some (s', .pending)) : s' = s ∧ s.word.isCompleted = false := by
  simp only [JoinTask.poll, hstate] at h
  split at h <;> cases h
  rename_i hret
  simp only [JoinTask.getFutureRet] at hret
  split at hret
  · cases hret
  · split at hret
    · rename_i hopen
      cases hret
      refine ⟨?_, by simpa using hopen⟩
      show { s with state := .polled } = s
      rw [← hstate]
    · split at hret <;> cases hret

/-- The completion of a task, and the waker that it takes from an attached handle. -/
theorem complete_cases {v : V} {isSafetyErr : Bool} {ws : List (Waker P F)}
    (h : s.complete v isSafetyErr = some (s', ws)) :
    s'.state = s.state ∧ s'.word.isCompleted = true ∧ s.word.isCompleted = false ∧
      (s.word.hasJoinHandle = true → ∃ w, s.handleWaker = some w ∧
        ws = [if isSafetyErr && s.isWithSafety then createSafetyWaker w else w]) := by
  have hdone : (⟨taskStateCompleted⟩ : TaskStateSnapshot).isCompleted = true := by decide
  simp only [JoinTask.complete, TaskState.transitionToCompleted] at h
  by_cases hrunning : (!s.word.isRunning) = true
  · rw [if_pos hrunning] at h
    cases h
  · rw [if_neg hrunning] at h
    by_cases hcompleted : s.word.isCompleted = true
    · rw [if_pos hcompleted] at h
      cases h
    · rw [if_neg hcompleted] at h
      by_cases hcanceled : s.word.isCanceled = true
      · rw [if_pos hcanceled] at h
        cases h
      · rw [if_neg hcanceled] at h
        have hopen := Bool.eq_false_iff.mpr hcompleted
        by_cases hattached : s.word.hasJoinHandle = true
        · rw [if_pos hattached] at h
          cases hwaker : s.handleWaker with
          | none =>
              rw [hwaker] at h
              cases h
          | some w =>
              rw [hwaker] at h
              cases h
              exact ⟨rfl, hdone, hopen, fun _ => ⟨w, rfl, rfl⟩⟩
        · rw [if_neg hattached] at h
          cases h
          exact ⟨rfl, hdone, hopen, fun hjoin => absurd hjoin hattached⟩

/-- The invariant: a task that is not completed has the waker of the first poll. -/
def JoinKept (s : Wait (JoinTask V P F) (Waker P F)) : Prop :=
  s.state.state = .new ∧ s.wakers = [] ∨
    s.state.state = .polled ∧ (s.state.word.isCompleted = true → s.served = true) ∧
      (s.state.word.isCompleted = false →
        s.state.handleWaker = s.first ∧ s.first.isSome ∧ s.state.word.hasJoinHandle = true)

theorem joinHandle_kept {isWithSafety : Bool} {s : Wait (JoinTask V P F) (Waker P F)}
    (hrun : Reaches (joinHandle V P F).step anyStep (.start (.new isWithSafety)) s) :
    JoinKept s := by
  refine LeafFuture.reaches_wait hrun (Or.inl ⟨rfl, rfl⟩) ?_ ?_ ?_
  · intro s w t hok hpoll
    have hpoll := pendingState_eq_some hpoll
    rcases hok with ⟨hstate, hwakers⟩ | ⟨hstate, -, hkept⟩
    · obtain ⟨hpolled, hwaker, hopen, hattached⟩ := poll_pending_new hstate hpoll
      refine Or.inr ⟨hpolled, fun hdone => ?_, fun _ => ?_⟩
      · rw [hopen] at hdone
        cases hdone
      · rw [hwakers]
        exact ⟨hwaker, rfl, hattached⟩
    · obtain ⟨rfl, hopen⟩ := poll_pending_polled hstate hpoll
      obtain ⟨hwaker, hsome, hattached⟩ := hkept hopen
      refine Or.inr ⟨hstate, fun hdone => ?_, fun _ => ?_⟩
      · rw [hopen] at hdone
        cases hdone
      · obtain ⟨first, hfirst⟩ := Option.isSome_iff_exists.mp hsome
        rw [Wait.first_cons hfirst, hwaker, hfirst]
        exact ⟨rfl, rfl, hattached⟩
  · intro s a t hok hmove
    have hkeeps := move_keeps hmove
    rcases hok with ⟨hstate, hwakers⟩ | ⟨hstate, hdone, hkept⟩
    · exact Or.inl ⟨hkeeps.state.trans hstate, hwakers⟩
    · refine Or.inr ⟨hkeeps.state.trans hstate, fun hcompleted => ?_, fun hopen => ?_⟩
      · exact hdone (hkeeps.completed ▸ hcompleted)
      · obtain ⟨hwaker, hsome, hattached⟩ := hkept (hkeeps.completed ▸ hopen)
        exact ⟨hkeeps.waker.trans hwaker, hsome, hkeeps.attached.trans hattached⟩
  · intro s r t ws hok hevent
    obtain ⟨hsame, hdone, -, -⟩ := complete_cases hevent
    rcases hok with ⟨hstate, hwakers⟩ | ⟨hstate, -, -⟩
    · exact Or.inl ⟨hsame.trans hstate, hwakers⟩
    · refine Or.inr ⟨hsame.trans hstate, fun _ => rfl, fun hopen => ?_⟩
      rw [show t.word.isCompleted = false from hopen] at hdone
      cases hdone

/-- The completion wakes the waker of the first poll. -/
theorem joinHandle_wakesLast (V P F : Type) (isWithSafety : Bool) :
    (joinHandle V P F).WakesLast (.new isWithSafety) fun s r =>
      s.first = s.wakers.head? ∧ (r.2 && s.state.isWithSafety) = false := by
  rintro s w r s' ws hrun hlast hserved ⟨hsame, hnormal⟩ hevent
  obtain ⟨-, -, hopen, hwoken⟩ := complete_cases hevent
  rcases joinHandle_kept hrun with ⟨-, hwakers⟩ | ⟨-, -, hkept⟩
  · rw [hwakers] at hlast
    cases hlast
  · obtain ⟨hwaker, -, hattached⟩ := hkept hopen
    obtain ⟨w', hw', rfl⟩ := hwoken hattached
    rw [hwaker, hsame, hlast] at hw'
    cases hw'
    rw [if_neg (by rw [hnormal]; decide)]

end Join

/-! ### `ReadinessFuture` -/

section Readiness

open Kyron.Io
open Kyron.Io.ReadinessState
open Kyron.Proofs.Io

variable {W : Type} {s : Wait (ReadinessWait W) W} {t : ReadinessWait W}

/-- What holds of a `ReadinessFuture` in every run. -/
structure ReadinessKept (s : Wait (ReadinessWait W) W) : Prop where
  slots : ReadinessWait.slotsOfOthers s.state.info.wakers = true
  own : s.state.state = .new ∧ s.wakers = [] ∧ ReadinessWait.own s.state.info.wakers = [] ∨
    s.state.state = .polled ∧ ∃ w, s.first = some w ∧
      (ReadinessWait.own s.state.info.wakers = [] ∨
        ReadinessWait.own s.state.info.wakers = [⟨(true, w), s.state.interest⟩])

/-- After `wake` the slots still have no waker of the future. -/
theorem slotsOfOthers_wake {info : RegistrationInfo (Bool × W)} (state : ReadinessState)
    (h : ReadinessWait.slotsOfOthers info.wakers = true) :
    ReadinessWait.slotsOfOthers (info.wake state).2.wakers = true := by
  simp only [ReadinessWait.slotsOfOthers, Bool.and_eq_true] at h ⊢
  constructor
  · show Option.all _ (if _ then none else info.wakers.read) = true
    split
    · rfl
    · exact h.1
  · show Option.all _ (if _ then none else info.wakers.write) = true
    split
    · rfl
    · exact h.2

theorem own_wake (info : RegistrationInfo (Bool × W)) (state : ReadinessState) :
    ReadinessWait.own (info.wake state).2.wakers =
      (ReadinessWait.own info.wakers).filter fun elem =>
        !wokenFor (info.readiness.markState state) elem := by
  show List.filter _ (RegistrationInfo.wakeWaiters _ _ _).2.2 = _
  rw [wakeWaiters_left]
  exact List.filter_comm _ _ _

/-- What is in a slot of another future is not woken for this one. -/
theorem filter_slot {o : Option (Bool × W)} (h : o.all (fun w => !w.1) = true) (b : Bool) :
    (if b then o.toList else []).filter Prod.fst = [] := by
  cases b with
  | false => rfl
  | true =>
      cases o with
      | none => rfl
      | some w =>
          simp only [Option.all_some, Bool.not_eq_true'] at h
          simp [h]

/-- The wakers of the future that `wake` invokes. -/
theorem wake_own_perm {info : RegistrationInfo (Bool × W)} (state : ReadinessState)
    (h : ReadinessWait.slotsOfOthers info.wakers = true) :
    ((info.wake state).1.filter Prod.fst).Perm
      (((ReadinessWait.own info.wakers).filter
        (wokenFor (info.readiness.markState state))).map WakerElem.waker) := by
  simp only [ReadinessWait.slotsOfOthers, Bool.and_eq_true] at h
  generalize hr : info.readiness.markState state = r
  have hslots : ((if r.isReadable then info.wakers.read.toList else []) ++
      if r.isWritable then info.wakers.write.toList else []).filter Prod.fst = [] := by
    rw [List.filter_append, filter_slot h.1, filter_slot h.2]
    rfl
  have hperm := (wakeWaiters_perm r info.wakers.waiters
    ((if r.isReadable then info.wakers.read.toList else []) ++
      if r.isWritable then info.wakers.write.toList else [])).filter Prod.fst
  rw [List.filter_append (_ ++ _), hslots, List.filter_map, List.filter_comm] at hperm
  rw [← hr] at hperm ⊢
  exact hperm

/-- The driver reports a state, whether it concerns the future or not. -/
theorem ReadinessKept.wake (h : ReadinessKept s) (state : ReadinessState) (served : Bool) :
    ReadinessKept
      { s with state := { s.state with info := (s.state.info.wake state).2 }, served } := by
  refine ⟨slotsOfOthers_wake state h.slots, ?_⟩
  have hown := own_wake s.state.info state
  rcases h.own with ⟨hstate, hwakers, hnone⟩ | ⟨hstate, w, hfirst, hnone | hone⟩
  · rw [hnone] at hown
    exact Or.inl ⟨hstate, hwakers, hown⟩
  · rw [hnone] at hown
    exact Or.inr ⟨hstate, w, hfirst, Or.inl hown⟩
  · rw [hone, List.filter_singleton] at hown
    refine Or.inr ⟨hstate, w, hfirst, ?_⟩
    cases hwoken : wokenFor (s.state.info.readiness.markState state)
        (⟨(true, w), s.state.interest⟩ : WakerElem (Bool × W)) with
    | true =>
        rw [hwoken] at hown
        exact Or.inl hown
    | false =>
        rw [hwoken] at hown
        exact Or.inr hown

theorem ReadinessKept.poll (h : ReadinessKept s) {w : W}
    (hpoll : s.state.poll w = some (t, .pending)) : ReadinessKept ⟨t, w :: s.wakers, false⟩ := by
  unfold ReadinessWait.poll at hpoll
  rcases h.own with ⟨hstate, hwakers, hnone⟩ | ⟨hstate, first, hfirst, hown⟩
  · simp only [hstate] at hpoll
    split at hpoll <;> cases hpoll
    refine ⟨h.slots, Or.inr ⟨rfl, w, ?_, Or.inr ?_⟩⟩
    · rw [hwakers]
      rfl
    · show List.filter _ (s.state.info.wakers.waiters ++ [_]) = _
      rw [List.filter_append]
      exact congrArg (· ++ _) hnone
  · simp only [hstate] at hpoll
    split at hpoll <;> cases hpoll
    exact ⟨h.slots, Or.inr ⟨hstate, first, Wait.first_cons hfirst _ _ _, hown⟩⟩

theorem ReadinessKept.move [DecidableEq W] (h : ReadinessKept s) {a : RegistrationMove W}
    (hmove : s.state.move a = some t) : ReadinessKept { s with state := t } := by
  cases a with
  | wake state =>
      simp only [ReadinessWait.move] at hmove
      split at hmove <;> cases hmove
      exact h.wake state s.served
  | clearReadiness readiness interest =>
      cases hmove
      exact ⟨h.slots, h.own⟩
  | others wakers =>
      simp only [ReadinessWait.move] at hmove
      split at hmove <;> cases hmove
      rename_i hothers
      refine ⟨hothers.2, ?_⟩
      show _ ∧ _ ∧ ReadinessWait.own wakers = [] ∨ _ ∧ ∃ w, _ ∧
        (ReadinessWait.own wakers = [] ∨ ReadinessWait.own wakers = _)
      rw [hothers.1]
      exact h.own

theorem becomeReady_eq {ws : List W} {state : ReadinessState}
    (h : s.state.becomeReady state = some (t, ws)) :
    s.state.concerns state = true ∧ t = { s.state with info := (s.state.info.wake state).2 } ∧
      ws = ((s.state.info.wake state).1.filter Prod.fst).map Prod.snd := by
  unfold ReadinessWait.becomeReady at h
  split at h <;> cases h
  rename_i hconcerns
  exact ⟨hconcerns, rfl, rfl⟩

theorem readinessFuture_kept [DecidableEq W] {readiness : ReadinessState}
    {interest : IoEventInterest}
    (hrun : Reaches (readinessFuture W).step anyStep (.start (.new readiness interest)) s) :
    ReadinessKept s := by
  refine LeafFuture.reaches_wait hrun ⟨rfl, Or.inl ⟨rfl, rfl, rfl⟩⟩ ?_ ?_ ?_
  · intro s w t h hpoll
    exact h.poll (pendingState_eq_some hpoll)
  · intro s a t h hmove
    exact h.move hmove
  · intro s state t ws h hevent
    obtain ⟨-, rfl, -⟩ := becomeReady_eq hevent
    exact h.wake state true

/-- The readiness wakes the waker of the first poll, as long as it is in the list. -/
theorem readinessFuture_wakesLast [DecidableEq W] (readiness : ReadinessState)
    (interest : IoEventInterest) :
    (readinessFuture W).WakesLast (.new readiness interest) fun s _ =>
      s.first = s.wakers.head? ∧ ReadinessWait.own s.state.info.wakers ≠ [] := by
  rintro s w state s' ws hrun hlast hserved ⟨hsame, hlisted⟩ hevent
  have h := readinessFuture_kept hrun
  obtain ⟨hconcerns, -, rfl⟩ := becomeReady_eq hevent
  rcases h.own with ⟨-, hwakers, -⟩ | ⟨-, first, hfirst, hnone | hone⟩
  · rw [hwakers] at hlast
    cases hlast
  · exact absurd hnone hlisted
  · rw [hsame, hlast] at hfirst
    cases hfirst
    have hperm := wake_own_perm state h.slots
    have hwoken : wokenFor (s.state.info.readiness.markState state)
        (⟨(true, w), s.state.interest⟩ : WakerElem (Bool × W)) = true := hconcerns
    rw [hone, List.filter_cons_of_pos hwoken] at hperm
    rw [List.perm_singleton.mp hperm]
    rfl

end Readiness

/-! ### `ReceiverFuture` -/

section Receiver

variable {T P F : Type} {size : Nat}

/-- A receive that finds nothing leaves its waker in the store. -/
theorem receive_noData {c c' : Channel T P size} {waker : Waker P F}
    (h : c.receive waker = (c', .error .noData)) : c'.wakerStore.data = waker.data := by
  unfold Channel.receive at h
  split at h
  · cases h
  · dsimp only at h
    split at h
    · cases h
      rfl
    · split at h <;> cases h
      rfl

theorem receiverFutureReturn_pending {r : Except CommonErrors T}
    (h : (receiverFutureReturn r).toPoll = .pending) : r = .error .noData := by
  cases r with
  | ok v => cases h
  | error e =>
      by_cases he : e = .noData
      · rw [he]
      · rw [receiverFutureReturn, if_neg he] at h
        cases h

theorem receiver_poll_pending {s t : ReceiverWait T P size} {w : Waker P F}
    (h : s.poll w = some (t, .pending)) : t.chan.wakerStore.data = w.data := by
  rcases hreceive : s.chan.receive w with ⟨c, r⟩
  have hcall : some ((⟨c, (receiverFutureReturn r).state⟩ : ReceiverWait T P size),
      (receiverFutureReturn r).toPoll) = some (t, .pending) := by
    unfold ReceiverWait.poll at h
    rw [hreceive] at h
    split at h
    · exact h
    · exact h
    · cases h
  obtain ⟨ht, hpending⟩ := Prod.mk.inj (Option.some.inj hcall)
  rw [receiverFutureReturn_pending hpending] at hreceive
  rw [← ht]
  exact receive_noData hreceive

/-- As long as nothing has happened, the store has the data pointer of the last waker. -/
theorem receiverFuture_kept {queue : SpscQueue T size} {store : AtomicWakerStore P}
    {s : Wait (ReceiverWait T P size) (Waker P F)}
    (hrun : Reaches (receiverFuture T P F size).step anyStep (.start (.new queue store)) s) :
    s.served = false → ∀ w, s.wakers.head? = some w → s.state.chan.wakerStore.data = w.data := by
  refine LeafFuture.reaches_wait (I := fun s => s.served = false →
    ∀ w, s.wakers.head? = some w → s.state.chan.wakerStore.data = w.data) hrun ?_ ?_ ?_ ?_
  · rintro - w hlast
    cases hlast
  · rintro s w t - hpoll - w' hlast
    cases hlast
    exact receiver_poll_pending (pendingState_eq_some hpoll)
  · rintro s a t - -
    cases a
  · rintro s e t ws - - hserved
    cases hserved

/-- The sender wakes the data pointer that it finds. -/
theorem happen_wakes {s s' : ReceiverWait T P size} {e : ChannelEvent T} {ws : List (Waker P F)}
    (h : s.happen e = some (s', ws)) : ws = (s.chan.wakerStore.data.map createWaker).toList := by
  cases e with
  | message v =>
      simp only [ReceiverWait.happen] at h
      split at h
      · split at h <;> cases h
        rename_i hsend
        unfold Channel.send at hsend
        split at hsend
        · cases hsend
        · split at hsend <;> cases hsend
          rfl
      · cases h
  | senderDrop =>
      simp only [ReceiverWait.happen] at h
      split at h
      · rename_i hboth
        cases h
        unfold Channel.senderDropping
        rw [if_pos hboth]
        rfl
      · cases h

/-- The sender wakes the waker of the last poll, if that is a waker of the runtime. -/
theorem receiverFuture_wakesLast (queue : SpscQueue T size) (store : AtomicWakerStore P) :
    (receiverFuture T P F size).WakesLast (.new queue store) fun s _ =>
      ∃ p, s.wakers.head? = some (createWaker p) := by
  rintro s w e s' ws hrun hlast hserved ⟨p, hruntime⟩ hevent
  rw [hruntime] at hlast
  cases hlast
  rw [happen_wakes hevent, receiverFuture_kept hrun hserved _ hruntime]
  rfl

end Receiver

/-! ### The four of them -/

section Contract

variable {V T P F Pool : Type} [DecidableEq P] [DecidableEq F] {size : Nat}
  {pool : Time.NodePool Pool} {live : Pool → Time.NodeAddr → Prop}

/-- In every run of each leaf future, after any polls with any wakers: when the last poll has
returned `Pending` with a waker and the event comes after that, the event invokes this waker with
its data pointer and its table, and no other one,

* for `JoinHandle`, `Sleep` and `ReadinessFuture`, if it is also the waker of the first poll that
  returned `Pending`. For a `JoinHandle` the task must not be one that reports its error to the
  safety worker. For a `ReadinessFuture` its item must still be in the list of waiters;
* for `ReceiverFuture`, if it is a waker of a task of the runtime. -/
theorem leaf_futures_wake_last (hpool : pool.Lawful live) (p : Pool)
    {startTime expireAt : Time.Instant}
    (hrange : (expireAt + 999999 - startTime) / 1000000 < 2 ^ 64) (isWithSafety : Bool)
    (readiness : Io.ReadinessState) (interest : Io.IoEventInterest) (queue : SpscQueue T size)
    (store : AtomicWakerStore P) :
    (joinHandle V P F).WakesLast (.new isWithSafety) (fun s r =>
      s.first = s.wakers.head? ∧ (r.2 && s.state.isWithSafety) = false) ∧
    (sleep pool (Waker P F)).WakesLast (.new p startTime expireAt) (fun s _ =>
      s.first = s.wakers.head?) ∧
    (readinessFuture (Waker P F)).WakesLast (.new readiness interest) (fun s _ =>
      s.first = s.wakers.head? ∧ ReadinessWait.own s.state.info.wakers ≠ []) ∧
    (receiverFuture T P F size).WakesLast (.new queue store) (fun s _ =>
      ∃ task, s.wakers.head? = some (createWaker task)) :=
  ⟨joinHandle_wakesLast V P F isWithSafety, sleep_wakesLast hpool p hrange,
    readinessFuture_wakesLast readiness interest, receiverFuture_wakesLast queue store⟩

end Contract

/-- Two polls with the waker of task 0 each, and then the event. -/
theorem leaf_futures_wake_polled_twice :
    (∃ ws, (joinHandle Unit Nat Unit).trial (.new false)
      [WaitAction.poll (createWaker 0), .poll (createWaker 0), .other .run] ((), false) =
        some (some (createWaker 0), false, ws) ∧ ws = [createWaker 0]) ∧
    (∃ ws, (sleep (Time.fixedPool 1) (Waker Nat Unit)).trial (.new [] 0 1)
      [WaitAction.poll (createWaker 0), .poll (createWaker 0), .other (.tick 1000000)] 2 =
        some (some (createWaker 0), false, ws) ∧ ws = [createWaker 0]) ∧
    (∃ ws, (readinessFuture (Waker Nat Unit)).trial (.new ⟨0⟩ .readable)
      [WaitAction.poll (createWaker 0), .poll (createWaker 0)] (.ofInterest .readable) =
        some (some (createWaker 0), false, ws) ∧ ws = [createWaker 0]) ∧
    ∃ ws, (receiverFuture Unit Nat Unit 1).trial (.new .empty .empty)
      [WaitAction.poll (createWaker 0), .poll (createWaker 0)] (.message ()) =
        some (some (createWaker 0), false, ws) ∧ ws = [createWaker 0] := by
  obtain ⟨hjoin, hsleep, hready, hreceive⟩ := leaf_futures_wake_last (V := Unit) (F := Unit)
    (Time.fixedPool_lawful 1) [] (show (1 + 999999 - 0) / 1000000 < 2 ^ 64 by decide) false ⟨0⟩
    .readable (.empty : SpscQueue Unit 1) (.empty : AtomicWakerStore Nat)
  have hcompleted : (joinHandle Unit Nat Unit).trial (.new false)
      [WaitAction.poll (createWaker 0), .poll (createWaker 0), .other .run] ((), false) =
        some (some (createWaker 0), false, [createWaker 0]) := by decide
  have hexpired : (sleep (Time.fixedPool 1) (Waker Nat Unit)).trial (.new [] 0 1)
      [WaitAction.poll (createWaker 0), .poll (createWaker 0), .other (.tick 1000000)] 2 =
        some (some (createWaker 0), false, [createWaker 0]) := by decide +kernel
  have hreadable : (readinessFuture (Waker Nat Unit)).trial (.new ⟨0⟩ .readable)
      [WaitAction.poll (createWaker 0), .poll (createWaker 0)] (.ofInterest .readable) =
        some (some (createWaker 0), false, [createWaker 0]) := by decide
  have hsent : (receiverFuture Unit Nat Unit 1).trial (.new .empty .empty)
      [WaitAction.poll (createWaker 0), .poll (createWaker 0)] (.message ()) =
        some (some (createWaker 0), false, [createWaker 0]) := by decide
  refine ⟨⟨_, hcompleted, hjoin.trial hcompleted (by decide)⟩,
    ⟨_, hexpired, hsleep.trial hexpired (by decide +kernel)⟩,
    ⟨_, hreadable, hready.trial hreadable (by decide)⟩,
    ⟨_, hsent, hreceive.trial hsent fun s hs => ⟨0, ?_⟩⟩⟩
  cases hs
  rfl

/-- The first poll has the waker of task 0 and the second one that of task 1, and task 0 is woken. A
`ReceiverFuture` is polled with a waker that is not of the runtime, and task 0 is woken. -/
theorem leaf_futures_wake_another :
    (¬ (joinHandle Unit Nat Unit).WakesLast (.new false) fun _ _ => True) ∧
    (¬ (sleep (Time.fixedPool 1) (Waker Nat Unit)).WakesLast (.new [] 0 1) fun _ _ => True) ∧
    (¬ (readinessFuture (Waker Nat Unit)).WakesLast (.new ⟨0⟩ .readable) fun _ _ => True) ∧
    ¬ (receiverFuture Unit Nat Unit 1).WakesLast (.new .empty .empty) fun _ _ => True := by
  have hjoin : (joinHandle Unit Nat Unit).trial (.new false)
      [WaitAction.poll (createWaker 0), .poll (createWaker 1), .other .run] ((), false) =
        some (some (createWaker 1), false, [createWaker 0]) := by decide
  have hsleep : (sleep (Time.fixedPool 1) (Waker Nat Unit)).trial (.new [] 0 1)
      [WaitAction.poll (createWaker 0), .poll (createWaker 1), .other (.tick 1000000)] 2 =
        some (some (createWaker 1), false, [createWaker 0]) := by decide +kernel
  have hready : (readinessFuture (Waker Nat Unit)).trial (.new ⟨0⟩ .readable)
      [WaitAction.poll (createWaker 0), .poll (createWaker 1)] (.ofInterest .readable) =
        some (some (createWaker 1), false, [createWaker 0]) := by decide
  have hreceive : (receiverFuture Unit Nat Unit 1).trial (.new .empty .empty)
      [WaitAction.poll ⟨some 0, .other ()⟩] (.message ()) =
        some (some ⟨some 0, .other ()⟩, false, [createWaker 0]) := by decide
  exact ⟨LeafFuture.not_wakesLast hjoin (by decide), LeafFuture.not_wakesLast hsleep (by decide),
    LeafFuture.not_wakesLast hready (by decide), LeafFuture.not_wakesLast hreceive (by decide)⟩

end Kyron.Proofs.Futures
