import Kyron.Futures.SleepRun
import Kyron.Proofs.Futures.Sleep

/-!
# `Kyron.Proofs.Futures.SleepRun`: a `Sleep` is neither early nor late

The deadline is rounded up by 999999 ns before it is cut to milliseconds, and the clock is cut
without rounding. So a deadline that is due in milliseconds has passed on the clock
(`expireAt_le_clock`). That is the whole argument for a timer that fires and for a registration
that comes too late: `sleep_fires_on_time`.

It ends where the milliseconds do. `instant_into_u64` answers `u64::MAX` for every later instant,
and `sleep_fires_early` is a run in which such a deadline is taken for one that is due.
-/

set_option autoImplicit false

namespace Kyron.Proofs.Futures

open Kyron.Futures
open Kyron.Lib
open Kyron.Proofs.Time
open Kyron.Time

variable {Pool W : Type} {pool : NodePool Pool} {live : Pool → NodeAddr → Prop}
  {startTime expireAt : Instant}

/-- What holds of a `Sleep` and its driver in every run. -/
structure SleepRunOk (live : Pool → NodeAddr → Prop) (startTime expireAt : Instant)
    (s : SleepRun Pool W) : Prop where
  driver : DriverOk live s.timer.driver
  start : s.timer.driver.startTime = startTime
  clock : startTime ≤ s.timer.clock
  deadline : s.timer.expireAt = expireAt
  -- Before the first processing the driver is at time 0.
  last : s.timer.driver.lastCheckTime = (s.processed.map s.timer.driver.instantIntoU64).getD 0
  processed : ∀ c ∈ s.processed, startTime ≤ c
  own : ∀ t ∈ ownTimers s.timer.driver,
    t.expireAt = s.timer.driver.instantIntoU64 s.timer.roundedDeadline
  new : s.timer.state = .new → ownTimers s.timer.driver = 0 ∧ s.fired = false
  fired : s.fired = true → expireAt ≤ s.timer.clock

theorem sleepRunOk_new (p : Pool) :
    SleepRunOk live startTime expireAt (.new p startTime expireAt : SleepRun Pool W) where
  driver := driverOk_new live p startTime
  start := rfl
  clock := Nat.le_refl _
  deadline := rfl
  last := rfl
  processed := by
    intro c hc
    cases hc
  own := by
    intro t ht
    change t ∈ ownTimers (Inner.new p startTime) at ht
    rw [ownTimers_new] at ht
    exact absurd ht (Multiset.notMem_zero t)
  new := fun _ => ⟨ownTimers_new p startTime, rfl⟩
  fired := by
    intro h
    cases h

variable {s s' : SleepRun Pool W}

/-- A registration on the driver of a `Sleep`, its own or another one, with the state that the
future has after it. -/
theorem SleepRunOk.register (h : SleepRunOk live startTime expireAt s) (hpool : pool.Lawful live)
    {deadline : Instant} {own : Bool} {waker : W} {d : Time.Inner Pool (Bool × W)}
    {r : Except CommonErrors Unit} (state : FutureState)
    (hcall : s.timer.driver.registerTimeout pool deadline (own, waker) = .ok (d, r))
    (hown : own = true → deadline = s.timer.roundedDeadline)
    (hstate : state = .new → s.timer.state = .new ∧ own = false) :
    SleepRunOk live startTime expireAt
      { s with timer := { s.timer with driver := d, state := state } } := by
  rcases registerTimeout_cases hpool h.driver hcall with ⟨rfl, -⟩ | ⟨-, hok, hstart, hlast, hadd⟩
  · exact { h with new := fun hnew => h.new (hstate hnew).1 }
  · have hms : d.instantIntoU64 = s.timer.driver.instantIntoU64 :=
      funext (instantIntoU64_congr hstart)
    refine ⟨hok, hstart.trans h.start, h.clock, h.deadline, ?_, h.processed, ?_, ?_, h.fired⟩
    · show d.lastCheckTime = (s.processed.map d.instantIntoU64).getD 0
      rw [hlast, hms]
      exact h.last
    · intro t ht
      show t.expireAt = d.instantIntoU64 s.timer.roundedDeadline
      change t ∈ ownTimers d at ht
      rw [hms]
      cases own with
      | false =>
          rw [ownTimers_of_other hadd] at ht
          exact h.own t ht
      | true =>
          rw [ownTimers_of_own hadd, Multiset.mem_cons] at ht
          rcases ht with rfl | ht
          · rw [← hown rfl]
          · exact h.own t ht
    · intro hnew
      obtain ⟨hold, rfl⟩ := hstate hnew
      show ownTimers d = 0 ∧ _
      rw [ownTimers_of_other hadd]
      exact h.new hold

theorem SleepRunOk.poll (h : SleepRunOk live startTime expireAt s) (hpool : pool.Lawful live)
    {waker : W} {timer : SleepTimer Pool W} {r : Poll Unit}
    (hpoll : s.timer.poll pool waker = some (timer, r)) :
    SleepRunOk live startTime expireAt { s with timer } := by
  unfold SleepTimer.poll at hpoll
  split at hpoll
  · split at hpoll
    · rename_i d hcall
      cases hpoll
      exact h.register hpool .polled hcall (fun _ => rfl) fun hnew => by cases hnew
    · rename_i d hcall
      cases hpoll
      exact h.register hpool .finished hcall (fun _ => rfl) fun hnew => by cases hnew
    · cases hpoll
  · rename_i hpolled
    split at hpoll
    · cases hpoll
      exact { h with new := fun hnew => by cases hnew }
    · cases hpoll
      exact h
  · cases hpoll

/-- A timer of the `Sleep` that `process_timeouts` wakes is due, so the deadline has passed. -/
theorem SleepRunOk.expireAt_le (h : SleepRunOk live startTime expireAt s) (hpool : pool.Lawful live)
    (hrange : (expireAt + 999999 - startTime) / 1000000 < 2 ^ 64) {fuel : Nat}
    {timer : SleepTimer Pool W} {woken : List (TimeoutData (Bool × W))}
    (hcall : s.timer.processTimeouts pool fuel = some (timer, woken))
    (hfired : ∃ d ∈ woken, d.waker.1 = true) : expireAt ≤ s.timer.clock := by
  obtain ⟨t, ht, hown⟩ := hfired
  obtain ⟨d, -, -, -, -, -, hwoken⟩ := processTimeouts_cases hpool h.driver hcall
  have hmem : t ∈ ((woken.filter fun t => t.waker.1 : List _) : Multiset _) :=
    Multiset.mem_coe.mpr (List.mem_filter.mpr ⟨ht, hown⟩)
  rw [hwoken, Multiset.mem_filter] at hmem
  obtain ⟨hmem, hdue⟩ := hmem
  rw [h.own t hmem] at hdue
  refine expireAt_le_clock h.start h.clock hrange ?_
  rw [← h.deadline]
  exact hdue

theorem SleepRunOk.process (h : SleepRunOk live startTime expireAt s) (hpool : pool.Lawful live)
    (hrange : (expireAt + 999999 - startTime) / 1000000 < 2 ^ 64) {fuel : Nat}
    {timer : SleepTimer Pool W} {woken : List (TimeoutData (Bool × W))}
    (hcall : s.timer.processTimeouts pool fuel = some (timer, woken)) :
    SleepRunOk live startTime expireAt
      { timer, processed := some s.timer.clock,
        fired := s.fired || woken.any fun d => d.waker.1 } := by
  have hlate := h.expireAt_le hpool hrange hcall
  obtain ⟨d, rfl, hok, hstart, hlast, hown, hwoken⟩ := processTimeouts_cases hpool h.driver hcall
  have hms : d.instantIntoU64 = s.timer.driver.instantIntoU64 :=
    funext (instantIntoU64_congr hstart)
  refine ⟨hok, hstart.trans h.start, h.clock, h.deadline, ?_, ?_, ?_, ?_, ?_⟩
  · show d.lastCheckTime = d.instantIntoU64 s.timer.clock
    rw [hlast, hms]
  · intro c hc
    cases hc
    exact h.clock
  · intro t ht
    show t.expireAt = d.instantIntoU64 s.timer.roundedDeadline
    change t ∈ ownTimers d at ht
    rw [hown, Multiset.mem_filter] at ht
    rw [hms]
    exact h.own t ht.1
  · intro hnew
    obtain ⟨hnone, hfired⟩ := h.new hnew
    rw [hnone] at hown hwoken
    refine ⟨hown, ?_⟩
    -- Without a timer of its own in the wheel nothing of the future is woken.
    have hempty : woken.filter (fun t => t.waker.1) = [] := (Multiset.coe_eq_zero _).mp hwoken
    simp only [hfired, Bool.false_or, List.any_eq_false]
    intro t ht htrue
    exact List.filter_eq_nil_iff.mp hempty t ht htrue
  · intro hfired
    simp only [Bool.or_eq_true, List.any_eq_true] at hfired
    rcases hfired with hbefore | hnow
    · exact h.fired hbefore
    · exact hlate hnow

theorem sleepRun_ok (hpool : pool.Lawful live) {p : Pool}
    (hrange : (expireAt + 999999 - startTime) / 1000000 < 2 ^ 64)
    (hrun : Reaches (SleepRun.step pool) anyStep (.new p startTime expireAt) s) :
    SleepRunOk live startTime expireAt s := by
  refine hrun.invariant (sleepRunOk_new p) ?_
  intro s a s' h _ hstep
  cases a with
  | tick nanos =>
      cases hstep
      exact { h with
        clock := Nat.le_add_right_of_le h.clock
        fired := fun hfired => Nat.le_add_right_of_le (h.fired hfired) }
  | poll waker =>
      obtain ⟨⟨timer, r⟩, hpoll, rfl⟩ := Option.map_eq_some_iff.mp hstep
      exact h.poll hpool hpoll
  | register deadline waker =>
      obtain ⟨timer, hmove, rfl⟩ := Option.map_eq_some_iff.mp hstep
      simp only [SleepTimer.move] at hmove
      split at hmove <;> cases hmove
      rename_i d r hcall
      exact h.register hpool s.timer.state hcall (fun hown => by cases hown) fun hnew => ⟨hnew, rfl⟩
  | process fuel =>
      obtain ⟨⟨timer, woken⟩, hcall, rfl⟩ := Option.map_eq_some_iff.mp hstep
      exact h.process hpool hrange hcall

/-- In every run of a `Sleep` whose rounded deadline is a 64 bit number of milliseconds:

* if a call of `process_timeouts` wakes the timer of the `Sleep`, the clock has reached `expire_at`;
* once it was woken, the `Sleep` has finished or the next poll returns `Ready`;
* if the registration of the first poll answers `AlreadyDone`, the driver has processed timers
  before, and the last reading of the clock for that was not before `expire_at`. -/
theorem sleep_fires_on_time (hpool : pool.Lawful live) {p : Pool}
    (hrange : (expireAt + 999999 - startTime) / 1000000 < 2 ^ 64)
    (hrun : Reaches (SleepRun.step pool) anyStep (.new p startTime expireAt) s) :
    (∀ fuel timer woken, s.timer.processTimeouts pool fuel = some (timer, woken) →
      (∃ d ∈ woken, d.waker.1 = true) → expireAt ≤ s.timer.clock) ∧
    (s.fired = true → s.timer.state = .finished ∨
      s.timer.state = .polled ∧ ∀ waker, s.timer.poll pool waker =
        some ({ s.timer with state := .finished }, .ready ())) ∧
    (∀ waker d, s.timer.driver.registerTimeout pool s.timer.roundedDeadline (true, waker) =
        .ok (d, .error .alreadyDone) →
      ∃ c, s.processed = some c ∧ expireAt ≤ c) := by
  have h := sleepRun_ok hpool hrange hrun
  refine ⟨?_, ?_, ?_⟩
  · intro fuel timer woken hcall hfired
    exact h.expireAt_le hpool hrange hcall hfired
  · intro hfired
    cases hstate : s.timer.state with
    | new =>
        rw [(h.new hstate).2] at hfired
        cases hfired
    | finished => exact Or.inl rfl
    | polled =>
        refine Or.inr ⟨rfl, fun waker => ?_⟩
        unfold SleepTimer.poll
        rw [hstate]
        have hpassed := h.fired hfired
        rw [← h.deadline] at hpassed
        exact if_pos hpassed
  · intro waker d hcall
    have hpast := lt_of_alreadyDone hcall
    rw [h.last] at hpast
    cases hprocessed : s.processed with
    | none =>
        rw [hprocessed] at hpast
        exact absurd hpast UInt64.not_lt_zero
    | some c =>
        rw [hprocessed] at hpast
        refine ⟨c, rfl, ?_⟩
        refine expireAt_le_clock h.start (h.processed c hprocessed) hrange ?_
        rw [← h.deadline]
        exact UInt64.le_of_lt hpast

set_option maxRecDepth 2000 in
/-- A sleep of 3 ms and 1 ns: the timer is registered for 4 ms and fires there, and the next poll
returns `Ready`. -/
theorem sleep_fires_on_time_at_four :
    ∃ s : SleepRun (List NodeAddr) Unit,
      Reaches (SleepRun.step (fixedPool 1)) anyStep (.new [] 7 3000008) s ∧
      s.timer.clock = 4000007 ∧ s.fired = true ∧ s.timer.state = .polled ∧
      s.timer.poll (fixedPool 1) () = some ({ s.timer with state := .finished }, .ready ()) := by
  obtain ⟨s, hrun, hclock, hfired, hstate⟩ : ∃ s : SleepRun (List NodeAddr) Unit,
      Reaches (SleepRun.step (fixedPool 1)) anyStep (.new [] 7 3000008) s ∧
      s.timer.clock = 4000007 ∧ s.fired = true ∧ s.timer.state = .polled :=
    exists_reaches [SleepAction.poll (), .tick 4000000, .process 3] (by decide)
  refine ⟨s, hrun, hclock, hfired, hstate, ?_⟩
  rcases (sleep_fires_on_time (fixedPool_lawful 1) (by decide) hrun).2.1 hfired with
    hfinished | ⟨-, hready⟩
  · rw [hstate] at hfinished
    cases hfinished
  · exact hready ()

set_option maxRecDepth 2000 in
/-- The clock stands at `u64::MAX` milliseconds when a deadline after that is registered. It is cut
to the same number, and the next processing at the same reading wakes the timer before the
deadline. The poll that follows returns `Pending`, and nothing wakes the future again. -/
theorem sleep_fires_early :
    ∃ s : SleepRun (List NodeAddr) Unit,
      Reaches (SleepRun.step (fixedPool 1)) anyStep
        (.new [] 0 (2 ^ 64 * 1000000)) s ∧
      s.fired = true ∧ s.timer.clock < 2 ^ 64 * 1000000 ∧
      (s.timer.poll (fixedPool 1) ()).map Prod.snd = some .pending :=
  exists_reaches [SleepAction.tick ((2 ^ 64 - 1) * 1000000), .process 1, .poll (), .process 3]
    (by decide)

end Kyron.Proofs.Futures
