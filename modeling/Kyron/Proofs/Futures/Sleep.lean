import Kyron.Futures.Leaves
import Kyron.Proofs.Time.Process

/-!
# `Kyron.Proofs.Futures.Sleep`: the timer of a `Sleep`

The first poll registers the deadline, rounded up to a whole millisecond, with the waker of that
poll. From then on the wheel holds exactly one timer of the future, until it is due and processed,
and then the deadline has passed on the clock as well, so no later poll returns `Pending`. The
last step fails for a deadline that is cut off at the end of 64 bit milliseconds, which is why the
result asks for one before that.
-/

set_option autoImplicit false

namespace Kyron.Proofs.Futures

open Kyron.Futures
open Kyron.Lib
open Kyron.Proofs.Time
open Kyron.Time

theorem pendingState_eq_some {S O : Type} {r : Option (S × Poll O)} {s : S}
    (h : pendingState r = some s) : r = some (s, .pending) := by
  unfold pendingState at h
  split at h <;> cases h
  rfl

section Timers

variable {Pool W : Type} {d d' : Time.Inner Pool W}

theorem instantIntoU64_congr (h : d'.startTime = d.startTime) (t : Instant) :
    d'.instantIntoU64 t = d.instantIntoU64 t := by
  unfold Inner.instantIntoU64
  rw [h]

end Timers

section Sleep

variable {Pool W : Type} {pool : NodePool Pool} {live : Pool → NodeAddr → Prop}
  {s s' : SleepTimer Pool W}

/-- The timers of the future in the wheel. -/
def ownTimers (d : Time.Inner Pool (Bool × W)) : Multiset (TimeoutData (Bool × W)) :=
  (pending d).filter fun t => t.waker.1

/-- A call of `process_timeouts` that returns wakes the timers that are due and keeps the others. -/
theorem processTimeouts_cases (hpool : pool.Lawful live) (hok : DriverOk live s.driver) {fuel : Nat}
    {woken : List (TimeoutData (Bool × W))}
    (h : s.processTimeouts pool fuel = some (s', woken)) :
    ∃ d, s' = { s with driver := d } ∧ DriverOk live d ∧ d.startTime = s.driver.startTime ∧
      d.lastCheckTime = s.driver.instantIntoU64 s.clock ∧
      ownTimers d = (ownTimers s.driver).filter
        (fun t => ¬ t.expireAt ≤ s.driver.instantIntoU64 s.clock) ∧
      ((woken.filter fun t => t.waker.1 : List _) : Multiset (TimeoutData (Bool × W)))
        = (ownTimers s.driver).filter fun t => t.expireAt ≤ s.driver.instantIntoU64 s.clock := by
  unfold SleepTimer.processTimeouts at h
  split at h <;> cases h
  rename_i d hcall
  have hnow : s.driver.lastCheckTime ≤ s.driver.instantIntoU64 s.clock := by
    unfold Inner.processInternal at hcall
    split at hcall
    · assumption
    · cases hcall
  obtain ⟨d', woken', hres, hok', hlast, hwoken, -, hnodes⟩ := processInternal_spec hpool hok hnow
  cases (hres _).mp ⟨fuel, hcall⟩
  refine ⟨d, rfl, hok', ?_, hlast, ?_, ?_⟩
  · unfold Inner.processInternal at hcall
    rw [if_pos hnow] at hcall
    exact processLoop_startTime fuel hcall
  · unfold ownTimers pending
    rw [hnodes, Multiset.filter_comm]
    exact congrArg _ (Multiset.filter_map (fun t => ¬ t.expireAt ≤ _) TimeEntry.data _).symm
  · have hcoe : ((woken.filter fun t => t.waker.1 : List _) : Multiset (TimeoutData (Bool × W)))
        = Multiset.filter (fun t => t.waker.1) (woken : Multiset (TimeoutData (Bool × W))) := by
      rw [Multiset.filter_coe]
      simp only [Bool.decide_eq_true]
    unfold ownTimers pending
    rw [hcoe, hwoken, Multiset.filter_comm]
    exact congrArg _ (Multiset.filter_map (fun t => t.expireAt ≤ _) TimeEntry.data _).symm

theorem ownTimers_of_own {d d' : Time.Inner Pool (Bool × W)} {w : W} {expireAt : UInt64}
    (h : pending d' = ⟨(true, w), expireAt⟩ ::ₘ pending d) :
    ownTimers d' = ⟨(true, w), expireAt⟩ ::ₘ ownTimers d := by
  unfold ownTimers
  rw [h, Multiset.filter_cons_of_pos]
  rfl

theorem ownTimers_of_other {d d' : Time.Inner Pool (Bool × W)} {w : W} {expireAt : UInt64}
    (h : pending d' = ⟨(false, w), expireAt⟩ ::ₘ pending d) : ownTimers d' = ownTimers d := by
  unfold ownTimers
  rw [h, Multiset.filter_cons_of_neg]
  exact Bool.false_ne_true

/-- What holds of a `Sleep` in every run. -/
structure SleepKept (live : Pool → NodeAddr → Prop) (startTime expireAt : Instant)
    (s : Wait (SleepTimer Pool W) W) : Prop where
  driver : DriverOk live s.state.driver
  start : s.state.driver.startTime = startTime
  clock : startTime ≤ s.state.clock
  deadline : s.state.expireAt = expireAt
  own : s.state.state = .new ∧ s.served = false ∧ s.wakers = [] ∧ ownTimers s.state.driver = 0 ∨
    s.state.state = .polled ∧ s.served = true ∧ expireAt ≤ s.state.clock ∨
    s.state.state = .polled ∧ s.served = false ∧ ∃ w, s.first = some w ∧
      ownTimers s.state.driver =
        {⟨(true, w), s.state.driver.instantIntoU64 s.state.roundedDeadline⟩}

/-- A deadline that is due in milliseconds has passed on the clock. -/
theorem expireAt_le_clock {d : Time.Inner Pool W} {startTime clock expireAt : Nat}
    (hstart : d.startTime = startTime) (hclock : startTime ≤ clock)
    (hrange : (expireAt + 999999 - startTime) / 1000000 < 2 ^ 64)
    (hdue : d.instantIntoU64 (expireAt + 999999) ≤ d.instantIntoU64 clock) :
    expireAt ≤ clock := by
  unfold Inner.instantIntoU64 at hdue
  rw [hstart, UInt64.le_iff_toNat_le, UInt64.toNat_ofNat', UInt64.toNat_ofNat',
    Nat.mod_eq_of_lt (by omega), Nat.mod_eq_of_lt (by omega)] at hdue
  omega

theorem ownTimers_new (p : Pool) (startTime : Instant) :
    ownTimers (Inner.new p startTime : Time.Inner Pool (Bool × W)) = 0 := by
  show ((nodes fun l : Fin maxLevels => TimeWheel.new l).map _).filter _ = 0
  rw [nodes_new]
  rfl

section Run

variable {startTime expireAt : Instant} {s : Wait (SleepTimer Pool W) W} {t : SleepTimer Pool W}

theorem SleepKept.poll (h : SleepKept live startTime expireAt s) (hpool : pool.Lawful live) {w : W}
    (hpoll : s.state.poll pool w = some (t, .pending)) :
    SleepKept live startTime expireAt ⟨t, w :: s.wakers, false⟩ := by
  unfold SleepTimer.poll at hpoll
  rcases h.own with ⟨hstate, -, hwakers, hnone⟩ | ⟨hstate, -, hpassed⟩ |
    ⟨hstate, -, first, hfirst, hone⟩
  · simp only [hstate] at hpoll
    split at hpoll <;> cases hpoll
    rename_i d hcall
    rcases registerTimeout_cases hpool h.driver hcall with ⟨-, hfail⟩ |
      ⟨-, hok, hstart, -, hadd⟩
    · exact absurd rfl hfail
    · refine ⟨hok, hstart.trans h.start, h.clock, h.deadline, Or.inr (Or.inr ⟨rfl, rfl, w, ?_, ?_⟩)⟩
      · rw [hwakers]
        rfl
      · show ownTimers d = {⟨(true, w), d.instantIntoU64 s.state.roundedDeadline⟩}
        rw [ownTimers_of_own hadd, hnone, instantIntoU64_congr hstart]
        rfl
  · simp only [hstate, h.deadline] at hpoll
    rw [if_pos hpassed] at hpoll
    cases hpoll
  · simp only [hstate] at hpoll
    split at hpoll <;> cases hpoll
    exact ⟨h.driver, h.start, h.clock, h.deadline,
      Or.inr (Or.inr ⟨hstate, rfl, first, Wait.first_cons hfirst _ _ _, hone⟩)⟩

/-- The driver changes, but not the timers of the future. -/
theorem SleepKept.frame (h : SleepKept live startTime expireAt s) {d : Time.Inner Pool (Bool × W)}
    (hok : DriverOk live d) (hstart : d.startTime = s.state.driver.startTime)
    (hown : s.served = false → ownTimers d = ownTimers s.state.driver) :
    SleepKept live startTime expireAt { s with state := { s.state with driver := d } } := by
  refine ⟨hok, hstart.trans h.start, h.clock, h.deadline, ?_⟩
  rcases h.own with ⟨hstate, hserved, hwakers, hnone⟩ | hpassed |
    ⟨hstate, hserved, first, hfirst, hone⟩
  · exact Or.inl ⟨hstate, hserved, hwakers, (hown hserved).trans hnone⟩
  · exact Or.inr (Or.inl hpassed)
  · refine Or.inr (Or.inr ⟨hstate, hserved, first, hfirst, ?_⟩)
    show ownTimers d = {⟨(true, first), d.instantIntoU64 s.state.roundedDeadline⟩}
    rw [hown hserved, hone, instantIntoU64_congr hstart]

theorem SleepKept.move (h : SleepKept live startTime expireAt s) (hpool : pool.Lawful live)
    {a : DriverMove W} (hmove : s.state.move pool a = some t) :
    SleepKept live startTime expireAt { s with state := t } := by
  cases a with
  | tick nanos =>
      cases hmove
      refine ⟨h.driver, h.start, Nat.le_add_right_of_le h.clock, h.deadline, ?_⟩
      rcases h.own with hnew | ⟨hstate, hserved, hpassed⟩ | hone
      · exact Or.inl hnew
      · exact Or.inr (Or.inl ⟨hstate, hserved, Nat.le_add_right_of_le hpassed⟩)
      · exact Or.inr (Or.inr hone)
  | register other waker =>
      simp only [SleepTimer.move] at hmove
      split at hmove <;> cases hmove
      rename_i d r hcall
      rcases registerTimeout_cases hpool h.driver hcall with ⟨rfl, -⟩ |
        ⟨-, hok, hstart, -, hadd⟩
      · exact h
      · exact h.frame hok hstart fun _ => ownTimers_of_other hadd
  | process fuel =>
      simp only [SleepTimer.move] at hmove
      split at hmove
      · cases hmove
      · rename_i hearly
        obtain ⟨⟨t', woken⟩, hcall, rfl⟩ := Option.map_eq_some_iff.mp hmove
        obtain ⟨d, rfl, hok, hstart, -, hkept, -⟩ := processTimeouts_cases hpool h.driver hcall
        refine h.frame hok hstart fun hserved => ?_
        rw [hkept, Multiset.filter_eq_self]
        intro timer htimer
        rcases h.own with ⟨-, -, -, hnone⟩ | ⟨-, hserved', -⟩ | ⟨hstate, -, first, -, hone⟩
        · rw [hnone] at htimer
          cases htimer
        · rw [hserved] at hserved'
          cases hserved'
        · rw [hone, Multiset.mem_singleton] at htimer
          rw [htimer]
          intro hdue
          exact hearly (by simp [SleepTimer.isDue, hstate, hdue])

/-- The expiry: the deadline has passed, and the timer of the future is woken if it is there. -/
theorem SleepKept.expire (h : SleepKept live startTime expireAt s) (hpool : pool.Lawful live)
    (hrange : (expireAt + 999999 - startTime) / 1000000 < 2 ^ 64) {fuel : Nat} {ws : List W}
    (hevent : s.state.expire pool fuel = some (t, ws)) :
    SleepKept live startTime expireAt { s with state := t, served := true } ∧
      (s.served = false → ∃ w, s.first = some w ∧ ws = [w]) := by
  unfold SleepTimer.expire at hevent
  split at hevent
  · rename_i hdue
    obtain ⟨⟨t', woken⟩, hcall, hr⟩ := Option.map_eq_some_iff.mp hevent
    cases hr
    simp only [SleepTimer.isDue, Bool.and_eq_true, beq_iff_eq, decide_eq_true_eq] at hdue
    obtain ⟨hpolled, hdue⟩ := hdue
    obtain ⟨d, rfl, hok, hstart, -, -, hwoken⟩ := processTimeouts_cases hpool h.driver hcall
    refine ⟨⟨hok, hstart.trans h.start, h.clock, h.deadline, Or.inr (Or.inl ⟨hpolled, rfl, ?_⟩)⟩,
      fun hserved => ?_⟩
    · refine expireAt_le_clock h.start h.clock hrange ?_
      rw [← h.deadline]
      exact hdue
    · rcases h.own with ⟨hstate, -⟩ | ⟨-, hserved', -⟩ | ⟨-, -, first, hfirst, hone⟩
      · rw [hpolled] at hstate
        cases hstate
      · rw [hserved] at hserved'
        cases hserved'
      · rw [hone, Multiset.filter_singleton, if_pos hdue] at hwoken
        refine ⟨first, hfirst, ?_⟩
        show (woken.filter _).map _ = _
        rw [Multiset.coe_eq_singleton.mp hwoken]
        rfl
  · cases hevent

end Run

theorem sleep_kept (hpool : pool.Lawful live) {p : Pool} {startTime expireAt : Instant}
    (hrange : (expireAt + 999999 - startTime) / 1000000 < 2 ^ 64) {s : Wait (SleepTimer Pool W) W}
    (hrun : Reaches (sleep pool W).step anyStep (.start (.new p startTime expireAt)) s) :
    SleepKept live startTime expireAt s := by
  refine LeafFuture.reaches_wait hrun ?_ ?_ ?_ ?_
  · exact ⟨driverOk_new live p startTime, rfl, Nat.le_refl _, rfl,
      Or.inl ⟨rfl, rfl, rfl, ownTimers_new p startTime⟩⟩
  · intro s w t h hpoll
    exact h.poll hpool (pendingState_eq_some hpoll)
  · intro s a t h hmove
    exact h.move hpool hmove
  · intro s fuel t ws h hevent
    exact (h.expire hpool hrange hevent).1

/-- The expiry wakes the waker of the first poll. -/
theorem sleep_wakesLast (hpool : pool.Lawful live) (p : Pool) {startTime expireAt : Instant}
    (hrange : (expireAt + 999999 - startTime) / 1000000 < 2 ^ 64) :
    (sleep pool W).WakesLast (.new p startTime expireAt) fun s _ => s.first = s.wakers.head? := by
  intro s w fuel s' ws hrun hlast hserved hsame hevent
  obtain ⟨first, hfirst, rfl⟩ := ((sleep_kept hpool hrange hrun).expire hpool hrange hevent).2
    hserved
  rw [hsame, hlast] at hfirst
  cases hfirst
  rfl

end Sleep

end Kyron.Proofs.Futures
