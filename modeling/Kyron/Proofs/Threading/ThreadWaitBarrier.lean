import Kyron.Lib.Count
import Kyron.Threading.ThreadWaitBarrier

/-!
# `Kyron.Proofs.Threading.ThreadWaitBarrier`: the barrier opens when all threads are ready

* `Counting` follows the notifiers: each one that was handed out is not used yet, or was dropped,
  or its call of `ready` has not lowered the count, or it has lowered the count once. So the
  count never goes below zero.
* `NotifierOk` and `WaiterOk` say what a call and the thread in `wait_for_all` can rely on at
  their places. The waiter goes to sleep with the mutex and a count above zero, so the call that
  brings the count to zero still has its notification to send.
* `barrier_opens` puts them together for every run.
-/

set_option autoImplicit false

namespace Kyron.Proofs.Threading

open Kyron.Lib
open Kyron.Threading

variable {A : Type} {n : Nat} {s s' : ThreadWaitBarrier A} {a : A} {pc : NotifierPc}

/-- In `ready`, before the count goes down. -/
def BeforeDecrement (pc : NotifierPc) : Prop := pc = .lock ∨ pc = .decrement

/-- A call has lowered the count, and has its notification still to send. -/
def WillNotify (pc : NotifierPc) : Prop := pc = .unlock ∨ pc = .notify

structure Counting (n : Nat) (s : ThreadWaitBarrier A) : Prop where
  expected : s.expectedCnt = n
  handedOut : ∃ k, CountIs BeforeDecrement s.calls k ∧ s.notifiers + k + s.readies ≤ s.ntfCnt
  ntfCnt_le : s.ntfCnt ≤ n
  value_eq : s.value + s.readies = n
  refused : s.refused = true → s.ntfCnt = n

/-- What a call can rely on at its place. -/
def NotifierOk (s : ThreadWaitBarrier A) (a : A) : NotifierPc → Prop
  | .idle | .load | .lock | .notify => True
  | .exchange current => current ≤ s.ntfCnt
  | .decrement | .unlock => s.lock = some (.call a)
  | .overflow => False

/-- What the thread in `wait_for_all` can rely on at its place. -/
def WaiterOk (s : ThreadWaitBarrier A) : WaiterPc → Prop
  | .idle | .lock => True
  | .check => s.lock = some .waiter
  | .timeLeft | .block => s.lock = some .waiter ∧ 0 < s.value
  | .sleep => s.value = 0 → ∃ a, WillNotify (s.calls a)
  | .done false _ => s.value = 0
  | .done true left => 0 < left

structure BarrierOk (n : Nat) (s : ThreadWaitBarrier A) : Prop where
  counting : Counting n s
  calls : ∀ a, NotifierOk s a (s.calls a)
  waiter : WaiterOk s s.waiter

theorem barrierOk_new (n : Nat) :
    BarrierOk n (ThreadWaitBarrier.new n : ThreadWaitBarrier A) where
  counting :=
    { expected := rfl
      handedOut := ⟨0, .none fun _ => by simp [BeforeDecrement, ThreadWaitBarrier.new], le_rfl⟩
      ntfCnt_le := Nat.zero_le n
      value_eq := rfl
      refused := fun h => by cases h }
  calls := fun _ => trivial
  waiter := trivial

/-- The count is not zero while a call has not lowered it. -/
theorem Counting.value_pos (h : Counting n s) (ha : BeforeDecrement (s.calls a)) :
    0 < s.value := by
  obtain ⟨k, hcount, hsum⟩ := h.handedOut
  have hpos := hcount.pos ha
  have hle := h.ntfCnt_le
  have hvalue := h.value_eq
  omega

/-- The mutex and the waiter play no part in the counts. -/
theorem Counting.setWaiter (h : Counting n s) (lock : Option (BarrierParty A))
    (waiter : WaiterPc) : Counting n { s with lock, waiter } :=
  ⟨h.expected, h.handedOut, h.ntfCnt_le, h.value_eq, h.refused⟩

/-- A step of another party leaves the mutex of a call alone, and `ntf_cnt` only grows. -/
theorem NotifierOk.frame (h : NotifierOk s a pc) {p : BarrierParty A} (hne : p ≠ .call a)
    (hcnt : s.ntfCnt ≤ s'.ntfCnt)
    (hlock : s'.lock = s.lock ∨ s.lock = none ∨ s.lock = some p) : NotifierOk s' a pc := by
  cases pc <;> simp only [NotifierOk] at h ⊢ <;> grind

/-! ### The steps of the waiter -/

/-- A step of the waiter takes the mutex when it is free, and gives it away when it has it. -/
theorem BarrierOk.waits (h : BarrierOk n s) (lock : Option (BarrierParty A)) {waiter : WaiterPc}
    (hlock : lock = s.lock ∨ s.lock = none ∨ s.lock = some .waiter)
    (hself : WaiterOk { s with lock, waiter } waiter) : BarrierOk n { s with lock, waiter } where
  counting := h.counting.setWaiter lock waiter
  calls := fun a => (h.calls a).frame (p := .waiter) (fun h => by cases h) le_rfl hlock
  waiter := hself

/-- The waiter is on its way to the mutex. -/
theorem BarrierOk.toLock (h : BarrierOk n s) : BarrierOk n { s with waiter := .lock } :=
  h.waits s.lock (Or.inl rfl) trivial

theorem BarrierOk.stepWaiter (h : BarrierOk n s) (hstep : s.stepWaiter = some s') :
    BarrierOk n s' := by
  have hself := h.waiter
  unfold ThreadWaitBarrier.stepWaiter at hstep
  split at hstep
  next hw =>
    split at hstep
    next hfree =>
      cases hstep
      exact h.waits (some .waiter) (Or.inr (Or.inl hfree)) rfl
    next => cases hstep
  next hw =>
    rw [hw] at hself
    split at hstep
    next hpos =>
      cases hstep
      exact h.waits s.lock (Or.inl rfl) ⟨hself, hpos⟩
    next hzero =>
      -- the loop ends with the count at zero
      cases hstep
      exact h.waits none (Or.inr (Or.inr hself)) (Nat.eq_zero_of_not_pos hzero)
  next hw =>
    rw [hw] at hself
    cases hstep
    exact h.waits s.lock (Or.inl rfl) hself
  next hw =>
    -- the count is above zero when the mutex is given away
    rw [hw] at hself
    cases hstep
    exact h.waits none (Or.inr (Or.inr hself.1)) fun hzero => absurd hzero hself.2.ne'
  all_goals cases hstep

/-! ### The steps of the calls -/

variable [DecidableEq A]

/-- A call moves, and stays on the same side of its decrement. -/
theorem Counting.goto (h : Counting n s)
    (hside : BeforeDecrement (s.calls a) ↔ BeforeDecrement pc) : Counting n (s.goto a pc) := by
  obtain ⟨k, hcount, hsum⟩ := h.handedOut
  exact ⟨h.expected, ⟨k, hcount.update_same hside, hsum⟩, h.ntfCnt_le, h.value_eq, h.refused⟩

theorem goto_calls (b : A) : (s.goto a pc).calls b = if b = a then pc else s.calls b :=
  Function.update_apply s.calls a pc b

/-- A step of a call. It lowers the count only with the mutex and when it is about to notify, and
until then it does not give up its notification. -/
theorem BarrierOk.goto (h : BarrierOk n s) {u : ThreadWaitBarrier A} (hcalls : u.calls = s.calls)
    (hwaiter : u.waiter = s.waiter) (hcounting : Counting n (u.goto a pc))
    (hcnt : s.ntfCnt ≤ u.ntfCnt)
    (hlock : u.lock = s.lock ∨ s.lock = none ∨ s.lock = some (.call a))
    (hvalue : u.value = s.value ∨ s.lock = some (.call a) ∧ u.value ≤ s.value ∧ WillNotify pc)
    (hsend : WillNotify (s.calls a) → WillNotify pc) (hself : NotifierOk u a pc) :
    BarrierOk n (u.goto a pc) where
  counting := hcounting
  calls := by
    intro b
    change NotifierOk u b ((u.goto a pc).calls b)
    rw [goto_calls]
    split
    next heq => exact heq ▸ hself
    next hne =>
      rw [hcalls]
      exact (h.calls b).frame (fun h => hne (BarrierParty.call.inj h).symm) hcnt hlock
  waiter := by
    -- a pending notification stays pending, and a decrement makes one
    have hwill : (∃ b, WillNotify (s.calls b)) ∨ WillNotify pc →
        ∃ b, WillNotify ((u.goto a pc).calls b) := by
      rintro (⟨b, hb⟩ | hpc)
      · refine ⟨b, ?_⟩
        rw [goto_calls]
        split
        next heq => exact hsend (heq ▸ hb)
        next => exact hcalls ▸ hb
      · exact ⟨a, by rwa [goto_calls, if_pos rfl]⟩
    have hself := h.waiter
    change WaiterOk (u.goto a pc) u.waiter
    rw [hwaiter]
    generalize s.waiter = w at hself
    rcases w with _ | _ | _ | _ | _ | _ | ⟨_ | _, left⟩
    all_goals simp only [WaiterOk] at hself ⊢
    case sleep =>
      -- asleep: the count reached zero before this step, or with it
      intro hzero
      rcases hvalue with hvalue | ⟨-, -, hpc⟩
      · exact hwill (Or.inl (hself (hvalue.symm.trans hzero)))
      · exact hwill (Or.inr hpc)
    all_goals grind [ThreadWaitBarrier.goto]

/-- A step outside the mutex that changes neither the count nor the side of the decrement. -/
theorem BarrierOk.goto_outside (h : BarrierOk n s) (hbefore : ¬ BeforeDecrement (s.calls a))
    (hsend : ¬ WillNotify (s.calls a)) (hpc : ¬ BeforeDecrement pc) (hself : NotifierOk s a pc) :
    BarrierOk n (s.goto a pc) :=
  h.goto rfl rfl (h.counting.goto (iff_of_false hbefore hpc)) le_rfl (Or.inl rfl) (Or.inl rfl)
    (fun h => absurd h hsend) hself

/-- A call goes on with the value it has loaded now. -/
theorem BarrierOk.reload (h : BarrierOk n s) (hbefore : ¬ BeforeDecrement (s.calls a))
    (hsend : ¬ WillNotify (s.calls a)) : BarrierOk n (s.goto a (.exchange s.ntfCnt)) :=
  h.goto_outside hbefore hsend (by simp [BeforeDecrement]) (Nat.le_refl s.ntfCnt)

/-- A notifier is used. -/
theorem BarrierOk.ready (h : BarrierOk n s) (ha : s.calls a = .idle) (hpos : 0 < s.notifiers) :
    BarrierOk n ({ s with notifiers := s.notifiers - 1 }.goto a .lock) := by
  obtain ⟨k, hcount, hsum⟩ := h.counting.handedOut
  have hcount := hcount.update_enter (a := a) (b := .lock) (by simp [BeforeDecrement, ha])
    (Or.inl rfl)
  refine h.goto rfl rfl { h.counting with handedOut := ⟨k + 1, hcount, ?_⟩ } le_rfl (Or.inl rfl)
    (Or.inl rfl) (by simp [WillNotify, ha]) trivial
  change s.notifiers - 1 + (k + 1) + s.readies ≤ s.ntfCnt
  omega

/-- A call lowers the count. -/
theorem BarrierOk.decrement (h : BarrierOk n s) (ha : s.calls a = .decrement) :
    BarrierOk n ({ s with value := s.value - 1, readies := s.readies + 1 }.goto a .unlock) := by
  have hlock : s.lock = some (.call a) := by
    have hself := h.calls a
    rwa [ha] at hself
  have hbefore : BeforeDecrement (s.calls a) := Or.inr ha
  have hpos := h.counting.value_pos hbefore
  have hvalue := h.counting.value_eq
  obtain ⟨k, hcount, hsum⟩ := h.counting.handedOut
  have hk := hcount.pos hbefore
  have hcount := hcount.update_leave (b := .unlock) hbefore (by simp [BeforeDecrement])
  refine h.goto rfl rfl
    { h.counting with handedOut := ⟨k - 1, hcount, ?_⟩, value_eq := ?_ } le_rfl (Or.inl rfl)
    (Or.inr ⟨hlock, Nat.sub_le s.value 1, Or.inl rfl⟩) (fun _ => Or.inl rfl) hlock
  · change s.notifiers + (k - 1) + (s.readies + 1) ≤ s.ntfCnt
    omega
  · change s.value - 1 + (s.readies + 1) = n
    omega

/-- The notification. A waiter that was asleep is on its way to the mutex after it. -/
theorem BarrierOk.notify (h : BarrierOk n s) (ha : s.calls a = .notify) :
    BarrierOk n (s.notifyOne.goto a .idle) := by
  have hbefore : ¬ BeforeDecrement (s.calls a) := by simp [BeforeDecrement, ha]
  have hidle : ¬ BeforeDecrement .idle := by simp [BeforeDecrement]
  have hcalls : ∀ b, NotifierOk s b ((s.goto a .idle).calls b) := by
    intro b
    rw [goto_calls]
    split
    · trivial
    · exact h.calls b
  unfold ThreadWaitBarrier.notifyOne
  split
  next => exact ⟨(h.toLock).counting.goto (iff_of_false hbefore hidle), hcalls, trivial⟩
  next hawake =>
    refine ⟨h.counting.goto (iff_of_false hbefore hidle), hcalls, ?_⟩
    have hself := h.waiter
    change WaiterOk (s.goto a .idle) s.waiter
    revert hawake hself
    cases s.waiter with
    -- only the sleeping waiter relies on a notification
    | sleep => exact fun hawake => absurd rfl hawake
    | done timedOut left => cases timedOut <;> exact fun _ hself => hself
    | _ => exact fun _ hself => hself

/-- The exchange counts the notification, is refused, or is tried again. -/
theorem BarrierOk.exchange {current : Nat} (h : BarrierOk n s)
    (ha : s.calls a = .exchange current) : BarrierOk n (s.exchange a current) := by
  have hbefore : ¬ BeforeDecrement (s.calls a) := by simp [BeforeDecrement, ha]
  have hsend : ¬ WillNotify (s.calls a) := by simp [WillNotify, ha]
  have hidle : ¬ BeforeDecrement .idle := by simp [BeforeDecrement]
  have hcurrent : current ≤ s.ntfCnt := by
    have hself := h.calls a
    rwa [ha] at hself
  have hle := h.counting.ntfCnt_le
  have hexpected := h.counting.expected
  unfold ThreadWaitBarrier.exchange
  split
  · -- the loaded value is not below `expected_cnt`, so neither is the counter
    refine h.goto rfl rfl (Counting.goto ?_ (iff_of_false hbefore hidle)) le_rfl (Or.inl rfl)
      (Or.inl rfl) (fun h => absurd h hsend) trivial
    exact { h.counting with refused := fun _ => by change s.ntfCnt = n; omega }
  · split
    next hlt heq =>
      refine h.goto rfl rfl (Counting.goto ?_ (iff_of_false hbefore hidle)) ?_ (Or.inl rfl)
        (Or.inl rfl) (fun h => absurd h hsend) trivial
      · obtain ⟨k, hcount, hsum⟩ := h.counting.handedOut
        refine ⟨hexpected, ⟨k, hcount, ?_⟩, ?_, h.counting.value_eq, fun hrefused => ?_⟩
        · change s.notifiers + 1 + k + s.readies ≤ current + 1
          omega
        · change current + 1 ≤ n
          omega
        · have hfull := h.counting.refused hrefused
          omega
      · change s.ntfCnt ≤ current + 1
        omega
    next => exact h.reload hbefore hsend

theorem BarrierOk.stepCall (h : BarrierOk n s) (hstep : s.stepCall a = some s') :
    BarrierOk n s' := by
  have hself := h.calls a
  unfold ThreadWaitBarrier.stepCall at hstep
  split at hstep
  next ha =>
    cases hstep
    exact h.reload (by simp [BeforeDecrement, ha]) (by simp [WillNotify, ha])
  next current ha =>
    cases hstep
    exact h.exchange ha
  next ha =>
    split at hstep
    next hfree =>
      cases hstep
      refine h.goto rfl rfl (Counting.goto (h.counting.setWaiter _ s.waiter) ?_) le_rfl
        (Or.inr (Or.inl hfree)) (Or.inl rfl) (by simp [WillNotify, ha]) rfl
      exact iff_of_true (Or.inl ha) (Or.inr rfl)
    next => cases hstep
  next ha =>
    have hpos := h.counting.value_pos (Or.inr ha)
    rw [if_neg (by omega)] at hstep
    cases hstep
    exact h.decrement ha
  next ha =>
    rw [ha] at hself
    cases hstep
    refine h.goto rfl rfl (Counting.goto (h.counting.setWaiter none s.waiter) ?_) le_rfl
      (Or.inr (Or.inr hself)) (Or.inl rfl) (fun _ => Or.inr rfl) trivial
    exact iff_of_false (by simp [BeforeDecrement, ha]) (by simp [BeforeDecrement])
  next ha =>
    cases hstep
    exact h.notify ha
  next => cases hstep
  next => cases hstep

/-- Every step keeps `BarrierOk`. -/
theorem BarrierOk.step (h : BarrierOk n s) {action : BarrierAction A}
    (hstep : s.step action = some s') : BarrierOk n s' := by
  cases action with
  | advance a => exact h.stepCall hstep
  | waiter => exact h.stepWaiter hstep
  | getNotifier a =>
      simp only [ThreadWaitBarrier.step] at hstep
      split at hstep
      next ha =>
        cases hstep
        exact h.goto_outside (by simp [BeforeDecrement, ha]) (by simp [WillNotify, ha])
          (by simp [BeforeDecrement]) trivial
      next => cases hstep
  | ready a =>
      simp only [ThreadWaitBarrier.step] at hstep
      split at hstep
      next ha =>
        cases hstep
        exact h.ready ha.1 ha.2
      next => cases hstep
  | drop =>
      simp only [ThreadWaitBarrier.step] at hstep
      split at hstep
      · cases hstep
        obtain ⟨k, hcount, hsum⟩ := h.counting.handedOut
        refine ⟨{ h.counting with handedOut := ⟨k, hcount, ?_⟩ }, h.calls, h.waiter⟩
        change s.notifiers - 1 + k + s.readies ≤ s.ntfCnt
        omega
      · cases hstep
  | exchangeFails a =>
      simp only [ThreadWaitBarrier.step] at hstep
      split at hstep
      next ha =>
        split at hstep
        · cases hstep
          exact h.reload (by simp [BeforeDecrement, ha]) (by simp [WillNotify, ha])
        · cases hstep
      next => cases hstep
  | waitForAll =>
      simp only [ThreadWaitBarrier.step] at hstep
      split at hstep
      · cases hstep
        exact h.toLock
      · cases hstep
        exact h.toLock
      · cases hstep
  | timeUp =>
      simp only [ThreadWaitBarrier.step] at hstep
      split at hstep
      next hw =>
        cases hstep
        have hself := h.waiter
        rw [hw] at hself
        exact h.waits none (Or.inr (Or.inr hself.1)) hself.2
      next => cases hstep
  | wakeUp =>
      simp only [ThreadWaitBarrier.step] at hstep
      split at hstep
      · cases hstep
        exact h.toLock
      · cases hstep

/-! ### Every run -/

end Kyron.Proofs.Threading
