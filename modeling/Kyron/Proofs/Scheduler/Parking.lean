import Kyron.Lib.Transition
import Kyron.Scheduler.Parking

/-!
# `Kyron.Proofs.Scheduler.Parking`: no pending timer without a worker that will see it

A timer is woken only by a worker that processes the timers, so while one is pending some
worker has to come back in time. `Responsible` lists the ways in which that is ensured: an async
worker is awake or notified, one sleeps with a timeout that ends no later than the earliest
deadline, or a dedicated worker that registered a timer is still to unpark one.

The invariant says more than that, because a worker that is awake may already have decided to
sleep without a timeout.

* `Covers`: the worker will look at the timers again before the deadline `e`, if it runs on.
  Two kinds of workers on their way to sleep do not: those that will take the deadline for the
  promise of another worker, and those that saw no deadline.
* `Keeps`: the worker that stored the promise `g` covers `g` until the timers are processed at
  `g` or later. It parks with its own promise as `previous_wakeup_time`, so it waits for the
  lock and never takes `g` for the promise of another.
* `decided`: a deadline that a worker carries to its sleep. It is still pending, unless the
  timers were processed in between.

`nextPromisedWakeup` is never cleared. After the timers were processed at `g`, the promise `g`
has no keeper, and a timer registered for that same millisecond is taken for one that has.
`promise_outlives_keeper` is the run of one worker that leaves a timer to nobody. `try_write`
has a second gap: a worker that does not get the lock trusts its holder, and the holder may be
a dedicated worker whose registration then fails. `ParkGuard` excludes both.
-/

set_option autoImplicit false

namespace Kyron.Proofs.Scheduler

open Kyron.Lib
open Kyron.Time
open Kyron.Scheduler
open Function
open Parking

variable {n m : Nat}

/-! ### The property -/

/-- Not asleep and not on the point of waiting. -/
def Awake : WorkerPc → Prop
  | .promise _ | .parked _ => False
  | _ => True

/-- When the sleep of a worker ends without a notification. -/
def sleepsUntil : WorkerPc → Option Nat
  | .promise expire => some expire
  | .parked timeout => timeout
  | _ => none

/-- A dedicated worker after its registration and before its unpark. -/
def BeforeUnpark : DedicatedPc n → Prop
  | .notify | .choose | .unpark _ _ => True
  | _ => False

/-- Somebody will see the pending timers in time. -/
def Responsible (s : Parking n m) : Prop :=
  (∃ w, Awake (s.workers w).pc ∨ (s.workers w).state = .notified) ∨
    (∃ w, ∃ e ∈ sleepsUntil (s.workers w).pc, ∀ deadline ∈ s.timers.pending, e ≤ deadline) ∨
    ∃ d, BeforeUnpark (s.dedicated d)

/-! ### The condition -/

/-- The worker holds the lock of the timers and will see them again itself: it registers or
processes, or it looks up the next deadline and will not take it for the promise of another
worker. -/
def HoldsForItself (t : Timers) : WorkerPc → Prop
  | .register _ | .process | .exitProcess => True
  | .lookup previous promised => t.nextProcessTime = some promised → previous = promised
  | _ => False

/-- A worker whose deadline was promised before, by another worker, finds that promise not yet
due when the timers were last processed. -/
def PromiseNotDue (t : Timers) : WorkerPc → Prop
  | .decide previous promised (some expire) =>
      expire = promised → previous ≠ expire → t.lastCheckTime < expire
  | _ => True

/-- What a step asks of the state before it. While timers are pending, `try_write` fails only
against an async worker that will see them, and nobody trusts a promise that is already due. -/
def ParkGuard (s : Parking n m) : ParkAction n m → Prop
  | .sleep _ .tryWriteFails =>
      s.timers.pending = [] ∨ ∃ w, HoldsForItself s.timers (s.workers w).pc
  | .sleep w .decide => PromiseNotDue s.timers (s.workers w).pc
  | _ => True

/-! ### The invariant -/

/-- If a worker with this program counter and state byte runs on, it sees the timers again before
the deadline `e`. `last` is the time of the last processing. -/
def Covers (last e : Nat) (pc : WorkerPc) (state : WorkerState) : Prop :=
  state = .notified ∨
    match pc with
    | .access previous promised | .lookup previous promised =>
        promised = e → previous = e ∨ e ≤ last
    | .decide previous promised expire =>
        ∃ e' ∈ expire, e' ≤ e ∧ (e' = promised → previous = e' ∨ e' ≤ last)
    | .sleep timeout | .parked timeout => ∃ e' ∈ timeout, e' ≤ e
    | .promise expire => expire ≤ e
    | _ => True

/-- A worker with this program counter and stashed wakeup time stored the promise `g`, and still
covers it. -/
def Keeps (now g : Nat) (pc : WorkerPc) (wakeupTime : Option Nat) : Prop :=
  match pc with
  | .access previous promised | .lookup previous promised =>
      wakeupTime = some g ∧ previous = g ∧ promised = g
  | .decide previous promised expire =>
      wakeupTime = some g ∧ previous = g ∧ promised = g ∧ ∃ e ∈ expire, e ≤ g
  | .sleep timeout => wakeupTime = some g ∧ ∃ e ∈ timeout, e ≤ g
  | .promise expire => wakeupTime = some g ∧ expire ≤ g
  | .parked timeout => wakeupTime = some g ∧ timeout = some g
  | .leave | .exit | .exitProcess => wakeupTime = some g ∨ g ≤ now
  | _ => wakeupTime = some g

/-- The deadline that a worker carries to its sleep. -/
def decided : WorkerPc → Option Nat
  | .decide _ _ expire => expire
  | .sleep timeout => timeout
  | .promise expire => some expire
  | _ => none

/-- Some worker or dedicated worker covers the deadline `e`. -/
def Covered (s : Parking n m) (e : Nat) : Prop :=
  (∃ w, Covers s.timers.lastCheckTime e (s.workers w).pc (s.workers w).state) ∨
    ∃ d, BeforeUnpark (s.dedicated d)

structure ParkingOk (s : Parking n m) : Prop where
  /-- The timers were never processed ahead of the clock. -/
  clock : s.timers.lastCheckTime ≤ s.now
  /-- The earliest deadline is covered. -/
  covered : ∀ e, s.timers.nextProcessTime = some e → Covered s e
  /-- A promise that is not yet due has its timer and its keeper. -/
  kept : s.timers.lastCheckTime < s.nextPromisedWakeup →
    s.nextPromisedWakeup ∈ s.timers.pending ∧
      ∃ w, Keeps s.now s.nextPromisedWakeup (s.workers w).pc (s.workers w).wakeupTime
  /-- A deadline on its way to a sleep is pending until it is due. -/
  decided_pending : ∀ w, ∀ e ∈ decided (s.workers w).pc,
    s.timers.lastCheckTime < e → e ∈ s.timers.pending

theorem parkingOk_new : ParkingOk (Parking.new n m) where
  clock := le_rfl
  covered := fun _ he => nomatch he
  kept := fun h => absurd h (Nat.lt_irrefl 0)
  decided_pending := fun _ _ he => nomatch he

variable {e g : Nat} {t : Timers}

theorem nextProcessTime_mem (h : t.nextProcessTime = some e) :
    e ∈ t.pending := (List.min?_eq_some_iff.mp h).1

theorem nextProcessTime_le (h : t.nextProcessTime = some e) :
    ∀ deadline ∈ t.pending, e ≤ deadline := (List.min?_eq_some_iff.mp h).2

theorem exists_nextProcessTime (h : g ∈ t.pending) : ∃ e, t.nextProcessTime = some e ∧ e ≤ g := by
  obtain ⟨e, he⟩ := Option.isSome_iff_exists.mp (List.isSome_min?_of_mem h)
  exact ⟨e, he, nextProcessTime_le he g h⟩

/-- The keeper of a promise covers the timer that it was made for. -/
theorem Keeps.covers {now last : Nat} {pc : WorkerPc} {wakeupTime : Option Nat}
    {state : WorkerState} (h : Keeps now g pc wakeupTime) : Covers last g pc state := by
  right
  cases pc with
  | access previous promised => exact fun _ => Or.inl h.2.1
  | lookup previous promised => exact fun _ => Or.inl h.2.1
  | decide previous promised expire =>
      obtain ⟨-, hprevious, hpromised, e, he, hle⟩ := h
      exact ⟨e, he, hle, fun heq => Or.inl (by rw [heq, hprevious, hpromised])⟩
  | sleep timeout => exact h.2
  | promise expire => exact h.2
  | parked timeout => exact ⟨g, h.2, le_rfl⟩
  | _ => trivial

theorem Keeps.mono {now now' : Nat} {pc : WorkerPc} {wakeupTime : Option Nat}
    (h : Keeps now g pc wakeupTime) (hle : now ≤ now') : Keeps now' g pc wakeupTime := by
  cases pc with
  | leave => exact h.imp_right fun hg => hg.trans hle
  | exit => exact h.imp_right fun hg => hg.trans hle
  | exitProcess => exact h.imp_right fun hg => hg.trans hle
  | _ => exact h

/-! ### What a step can change -/

section

variable {s : Parking n m} {w : Fin n} {d : Fin m} {pc : WorkerPc}

@[simp] theorem setWorker_self (x : ParkWorker) : (s.setWorker w x).workers w = x :=
  update_self ..

theorem setWorker_of_ne (x : ParkWorker) {v : Fin n} (hv : v ≠ w) :
    (s.setWorker w x).workers v = s.workers v :=
  update_of_ne hv ..

/-- A step that changes one worker. Its old program counter is `pc`. If the worker covered the
earliest deadline, it still does or another one does. If it kept the promise, it still does. A
deadline that it carries now was carried before or is pending. -/
theorem ParkingOk.setWorker (h : ParkingOk s) (x : ParkWorker) (hpc : (s.workers w).pc = pc)
    (hcovers : ∀ e, s.timers.nextProcessTime = some e →
      Covers s.timers.lastCheckTime e pc (s.workers w).state →
      Covers s.timers.lastCheckTime e x.pc x.state ∨
        ∃ w' ≠ w, Covers s.timers.lastCheckTime e (s.workers w').pc (s.workers w').state)
    (hkeeps : s.timers.lastCheckTime < s.nextPromisedWakeup →
      s.nextPromisedWakeup ∈ s.timers.pending →
      Keeps s.now s.nextPromisedWakeup pc (s.workers w).wakeupTime →
      Keeps s.now s.nextPromisedWakeup x.pc x.wakeupTime)
    (hdecided : ∀ e ∈ decided x.pc, e ∈ decided pc ∨ e ∈ s.timers.pending) :
    ParkingOk (s.setWorker w x) := by
  refine ⟨h.clock, fun e he => ?_, fun hlt => ?_, fun v e he hlt => ?_⟩
  · rcases h.covered e he with ⟨v, hv⟩ | hd
    · left
      by_cases hvw : v = w
      · subst hvw
        rw [hpc] at hv
        rcases hcovers e he hv with hx | ⟨w', hne, hw'⟩
        · exact ⟨v, by rw [setWorker_self]; exact hx⟩
        · exact ⟨w', by rw [setWorker_of_ne x hne]; exact hw'⟩
      · exact ⟨v, by rw [setWorker_of_ne x hvw]; exact hv⟩
    · exact Or.inr hd
  · obtain ⟨hmem, v, hv⟩ := h.kept hlt
    refine ⟨hmem, v, ?_⟩
    by_cases hvw : v = w
    · subst hvw
      rw [setWorker_self]
      rw [hpc] at hv
      exact hkeeps hlt hmem hv
    · rw [setWorker_of_ne x hvw]
      exact hv
  · by_cases hvw : v = w
    · subst hvw
      rw [setWorker_self] at he
      rcases hdecided e he with hold | hmem
      · exact h.decided_pending v e (by rw [hpc]; exact hold) hlt
      · exact hmem
    · rw [setWorker_of_ne x hvw] at he
      exact h.decided_pending v e he hlt

/-- A step to a program counter from which the worker sees the timers again, whatever they are. -/
theorem ParkingOk.wake (h : ParkingOk s) (x : ParkWorker) (hpc : (s.workers w).pc = pc)
    (hcovers : ∀ e, Covers s.timers.lastCheckTime e x.pc x.state)
    (hdecided : decided x.pc = none)
    (hkeeps : s.timers.lastCheckTime < s.nextPromisedWakeup →
      Keeps s.now s.nextPromisedWakeup pc (s.workers w).wakeupTime →
      Keeps s.now s.nextPromisedWakeup x.pc x.wakeupTime) :
    ParkingOk (s.setWorker w x) :=
  h.setWorker x hpc (fun e _ _ => Or.inl (hcovers e)) (fun hlt _ => hkeeps hlt)
    (fun e he => by rw [hdecided] at he; cases he)

/-- A step that changes one dedicated worker. -/
theorem ParkingOk.setDedicated (h : ParkingOk s) (pc : DedicatedPc n)
    (hcovers : BeforeUnpark (s.dedicated d) → BeforeUnpark pc ∨
      ∀ e, ∃ w, Covers s.timers.lastCheckTime e (s.workers w).pc (s.workers w).state) :
    ParkingOk (s.setDedicated d pc) := by
  refine ⟨h.clock, fun e he => ?_, h.kept, h.decided_pending⟩
  rcases h.covered e he with hw | ⟨d', hd'⟩
  · exact Or.inl hw
  · by_cases hdd : d' = d
    · subst hdd
      rcases hcovers hd' with hpc | hw
      · refine Or.inr ⟨d', ?_⟩
        show BeforeUnpark (Function.update s.dedicated d' pc d')
        rw [update_self]
        exact hpc
      · exact Or.inl (hw e)
    · refine Or.inr ⟨d', ?_⟩
      show BeforeUnpark (Function.update s.dedicated d pc d')
      rw [update_of_ne hdd]
      exact hd'

/-- A step that changes the timers while somebody covers every deadline. Timers only go when they
are due. -/
theorem ParkingOk.setTimers (h : ParkingOk s) (t : Timers)
    (hcovered : ∀ e, Covered { s with timers := t } e)
    (hlast : s.timers.lastCheckTime ≤ t.lastCheckTime) (hnow : t.lastCheckTime ≤ s.now)
    (hpending : ∀ e ∈ s.timers.pending, t.lastCheckTime < e → e ∈ t.pending) :
    ParkingOk { s with timers := t } where
  clock := hnow
  covered := fun e _ => hcovered e
  kept := fun hlt =>
    have hkept := h.kept (hlast.trans_lt hlt)
    ⟨hpending _ hkept.1 hlt, hkept.2⟩
  decided_pending := fun w e he hlt =>
    hpending e (h.decided_pending w e he (hlast.trans_lt hlt)) hlt

theorem ParkingOk.tick (h : ParkingOk s) (ms : Nat) : ParkingOk { s with now := s.now + ms } where
  clock := h.clock.trans (Nat.le_add_right _ _)
  covered := h.covered
  kept := fun hlt =>
    have ⟨hmem, w, hw⟩ := h.kept hlt
    ⟨hmem, w, hw.mono (Nat.le_add_right _ _)⟩
  decided_pending := h.decided_pending

/-- A notified worker sees the timers again. -/
theorem ParkingOk.unpark (h : ParkingOk s) (w : Fin n) : ParkingOk (s.unpark w) :=
  h.setWorker _ rfl (fun _ _ _ => Or.inl (Or.inl rfl)) (fun _ _ hk => hk) (fun _ he => Or.inl he)

/-! ### The steps of a worker -/

/-- Reading the promise. The worker stops to cover the earliest deadline when that is the promise
it read, and then the keeper of the promise covers it. -/
theorem load_ok (h : ParkingOk s) (hpc : (s.workers w).pc = .load) :
    ParkingOk (s.goto w
      (.access ((s.workers w).wakeupTime.getD 0) s.nextPromisedWakeup)) := by
  refine h.setWorker _ hpc (fun e he _ => ?_) (fun _ _ hk => ?_) (fun _ he => nomatch he)
  · by_cases hfound : s.nextPromisedWakeup = e → (s.workers w).wakeupTime.getD 0 = e ∨
        e ≤ s.timers.lastCheckTime
    · exact Or.inl (Or.inr hfound)
    · -- The promise is that of another worker: its own stash would have been equal to it.
      right
      push Not at hfound
      obtain ⟨rfl, hprevious, hlast⟩ := hfound
      obtain ⟨-, keeper, hkeeper⟩ := h.kept hlast
      refine ⟨keeper, ?_, hkeeper.covers⟩
      rintro rfl
      rw [hpc] at hkeeper
      have hstash : (s.workers keeper).wakeupTime = some s.nextPromisedWakeup := hkeeper
      rw [hstash] at hprevious
      exact hprevious rfl
  · have hstash : (s.workers w).wakeupTime = some s.nextPromisedWakeup := hk
    exact ⟨hstash, by rw [hstash]; rfl, rfl⟩

variable {previous promised expireAt : Nat} {hasNode : Bool}

/-- A failed `try_write`: the holder of the lock covers the earliest deadline. The keeper of the
promise waits for the lock, so it is not the one that fails. -/
theorem tryWriteFails_ok (h : ParkingOk s) (hpc : (s.workers w).pc = .access previous promised)
    (hne : previous ≠ promised)
    (hguard : s.timers.pending = [] ∨ ∃ v, HoldsForItself s.timers (s.workers v).pc) :
    ParkingOk (s.goto w (.decide previous promised none)) := by
  refine h.setWorker _ hpc (fun e he _ => Or.inr ?_)
    (fun _ _ hk => absurd (hk.2.1.trans hk.2.2.symm) hne) (fun _ he => nomatch he)
  rcases hguard with hempty | ⟨holder, hholder⟩
  · have hmem := nextProcessTime_mem he
    rw [hempty] at hmem
    cases hmem
  · refine ⟨holder, ?_, Or.inr ?_⟩
    · rintro rfl
      rw [hpc] at hholder
      exact hholder
    · cases hpc' : (s.workers holder).pc with
      | lookup previous' promised' =>
          rw [hpc'] at hholder
          intro heq
          left
          rw [← heq]
          exact hholder (by rw [he, heq])
      | register | process | exitProcess => trivial
      | _ =>
          rw [hpc'] at hholder
          exact hholder.elim

/-- Looking up the next deadline. -/
theorem lookup_ok (h : ParkingOk s) (hpc : (s.workers w).pc = .lookup previous promised) :
    ParkingOk (s.goto w (.decide previous promised s.timers.nextProcessTime)) := by
  refine h.setWorker _ hpc (fun e he hcovers => Or.inl ?_) (fun _ hmem hk => ?_)
    (fun e he => Or.inr (nextProcessTime_mem he))
  · refine hcovers.imp_right fun hlooked => ⟨e, he, le_rfl, fun heq => hlooked heq.symm⟩
  · obtain ⟨e, he, hle⟩ := exists_nextProcessTime hmem
    exact ⟨hk.1, hk.2.1, hk.2.2, e, he, hle⟩

/-- The decision. A worker that covers the earliest deadline takes it for the promise of another
only if that promise is due, and the guard excludes that. -/
theorem decidePark_ok (h : ParkingOk s) {expire : Option Nat}
    (hpc : (s.workers w).pc = .decide previous promised expire)
    (hguard : PromiseNotDue s.timers (.decide previous promised expire)) :
    ParkingOk (s.decidePark w previous promised expire) := by
  cases expire with
  | none =>
      refine h.setWorker _ hpc (fun e _ hcovers => Or.inl (hcovers.imp_right ?_))
        (fun _ _ hk => ?_) (fun _ he => nomatch he)
      · rintro ⟨e', he', -⟩
        cases he'
      · obtain ⟨-, -, -, e', he', -⟩ := hk
        cases he'
  | some expire =>
      simp only [decidePark]
      split
      · -- It relies on the promise of another worker and sleeps without a timeout.
        rename_i htrust
        refine h.setWorker _ hpc (fun e _ hcovers => Or.inl (hcovers.imp_right ?_))
          (fun _ _ hk => ?_) (fun _ he => nomatch he)
        · rintro ⟨e', he', -, hown⟩
          cases he'
          rcases hown htrust.1 with heq | hdue
          · exact absurd heq htrust.2
          · exact absurd (hguard htrust.1 htrust.2) (Nat.not_lt.mpr hdue)
        · obtain ⟨-, hprevious, hpromised, -⟩ := hk
          exact absurd (hprevious.trans (hpromised.symm.trans htrust.1.symm)) htrust.2
      · split
        · -- The deadline has passed, and `park` returns at once.
          exact h.wake _ hpc (fun _ => Or.inr trivial) rfl (fun _ hk => Or.inl hk.1)
        · refine h.setWorker _ hpc (fun e _ hcovers => Or.inl (hcovers.imp_right ?_))
            (fun _ _ hk => ⟨hk.1, hk.2.2.2⟩) (fun _ he => Or.inl he)
          rintro ⟨e', he', hle, -⟩
          exact ⟨e', he', hle⟩

/-- `park_pre_stage`. -/
theorem preStage_ok (h : ParkingOk s) {timeout : Option Nat} {io : Bool} {s' : Parking n m}
    (hpc : (s.workers w).pc = .sleep timeout) (hstep : s.preStage w timeout io = some s') :
    ParkingOk s' := by
  unfold preStage at hstep
  cases hstate : (s.workers w).state with
  | executing =>
      have hawake : ∀ {last e : Nat}, Covers last e (.sleep timeout) (s.workers w).state →
          ∃ e' ∈ timeout, e' ≤ e := by
        intro last e hcovers
        rw [hstate] at hcovers
        exact hcovers.resolve_left (nomatch ·)
      simp only [hstate] at hstep
      cases timeout with
      | none =>
          cases hstep
          exact h.setWorker _ hpc (fun e _ hcovers => Or.inl (Or.inr (hawake hcovers)))
            (fun _ _ hk => by obtain ⟨-, e', he', -⟩ := hk; cases he') (fun _ he => nomatch he)
      | some expire =>
          cases hstep
          refine h.setWorker _ hpc (fun e _ hcovers => Or.inl (Or.inr ?_)) (fun _ _ hk => ?_)
            (fun _ he => Or.inl he)
          · obtain ⟨e', he', hle⟩ := hawake hcovers
            cases he'
            exact hle
          · obtain ⟨hstash, e', he', hle⟩ := hk
            cases he'
            exact ⟨hstash, hle⟩
  | notified =>
      simp only [hstate] at hstep
      cases hstep
      exact h.wake _ hpc (fun _ => Or.inr trivial) rfl (fun _ hk => hk.1)
  | sleepingCv =>
      simp only [hstate] at hstep
      cases hstep
  | sleepingIo =>
      simp only [hstate] at hstep
      cases hstep

/-- `after_park_decision`: the worker keeps the promise that it stores. -/
theorem afterParkDecision_ok (h : ParkingOk s) {expire : Nat}
    (hpc : (s.workers w).pc = .promise expire) : ParkingOk (s.afterParkDecision w expire) := by
  have hself : (s.afterParkDecision w expire).workers w =
      { s.workers w with pc := .parked (some expire), wakeupTime := some expire } :=
    setWorker_self _
  have hother : ∀ v, v ≠ w → (s.afterParkDecision w expire).workers v = s.workers v := fun v hv =>
    setWorker_of_ne _ hv
  refine ⟨h.clock, fun e he => ?_, fun hlt => ⟨?_, w, ?_⟩, fun v e he => ?_⟩
  · refine (h.covered e he).imp_left fun ⟨v, hv⟩ => ⟨v, ?_⟩
    by_cases hvw : v = w
    · subst hvw
      rw [hself]
      rw [hpc] at hv
      exact hv.imp_right fun hle => ⟨expire, rfl, hle⟩
    · rw [hother v hvw]
      exact hv
  · exact h.decided_pending w expire (by rw [hpc]; rfl) hlt
  · rw [hself]
    exact ⟨rfl, rfl⟩
  · by_cases hvw : v = w
    · subst hvw
      rw [hself] at he
      cases he
    · rw [hother v hvw] at he
      exact h.decided_pending v e he

/-! ### Registering and processing -/

/-- A registration that succeeds adds its timer, and one that fails changes nothing. -/
theorem registerTimeout_ok {t t' : Timers} (h : t.registerTimeout expireAt hasNode = .ok t') :
    t'.lastCheckTime = t.lastCheckTime ∧ t'.pending = expireAt :: t.pending := by
  unfold Timers.registerTimeout at h
  split at h
  · cases h
  · split at h
    · cases h
    · split at h
      · cases h
        exact ⟨rfl, rfl⟩
      · cases h

theorem tryRegister_eq_ok {s' : Parking n m} (hreg : s.tryRegister expireAt hasNode = .ok s') :
    ∃ t, s.timers.registerTimeout expireAt hasNode = .ok t ∧ s' = { s with timers := t } := by
  unfold tryRegister at hreg
  cases htimers : s.timers.registerTimeout expireAt hasNode with
  | error err =>
      rw [htimers] at hreg
      cases hreg
  | ok t =>
      rw [htimers] at hreg
      cases hreg
      exact ⟨t, rfl, rfl⟩

/-- A registration while somebody covers every deadline. -/
theorem ParkingOk.register (h : ParkingOk s) {t : Timers}
    (hreg : s.timers.registerTimeout expireAt hasNode = .ok t)
    (hcovered : ∀ (t : Timers) e, Covered { s with timers := t } e) :
    ParkingOk { s with timers := t } := by
  obtain ⟨hlast, hpending⟩ := registerTimeout_ok hreg
  refine h.setTimers t (hcovered t) hlast.ge (hlast.trans_le h.clock) fun e he _ => ?_
  rw [hpending]
  exact List.mem_cons_of_mem expireAt he

/-- Processing while somebody covers every deadline: a timer that is not due stays. -/
theorem processTimeouts_ok (h : ParkingOk s)
    (hcovered : ∀ (t : Timers) e, Covered { s with timers := t } e) :
    ParkingOk s.processTimeouts :=
  h.setTimers _ (hcovered _) h.clock le_rfl fun _ he hlt =>
    List.mem_filter.mpr ⟨he, decide_eq_true hlt⟩

/-- A worker whose program counter covers every deadline covers them whatever the timers are. -/
theorem covered_of_pc (hpc : (s.workers w).pc = pc)
    (hcovers : ∀ last e state, Covers last e pc state) (t : Timers) (e : Nat) :
    Covered { s with timers := t } e := by
  refine Or.inl ⟨w, ?_⟩
  show Covers t.lastCheckTime e (s.workers w).pc (s.workers w).state
  rw [hpc]
  exact hcovers _ _ _

/-- A task of a worker registers a timer. -/
theorem register_ok (h : ParkingOk s) {s' : Parking n m}
    (hpc : (s.workers w).pc = .register expireAt) (hreg : s.tryRegister expireAt hasNode = .ok s') :
    ParkingOk (s'.goto w (.run false)) := by
  obtain ⟨t, ht, rfl⟩ := tryRegister_eq_ok hreg
  have hok := h.register ht (covered_of_pc hpc fun _ _ _ => Or.inr trivial)
  exact hok.wake _ hpc (fun _ => Or.inr trivial) rfl (fun _ hk => hk)

/-- A worker processes the timers. The keeper of a promise that is due then may forget it. -/
theorem process_ok (h : ParkingOk s) (hpc : (s.workers w).pc = pc)
    (hprocess : pc = .process ∨ pc = .exitProcess) :
    ParkingOk (s.processTimeouts.goto w (.run false)) := by
  have hcovers : ∀ last e state, Covers last e pc state := by
    rcases hprocess with rfl | rfl <;> exact fun _ _ _ => Or.inr trivial
  refine (processTimeouts_ok h (covered_of_pc hpc hcovers)).wake _ hpc
    (fun _ => Or.inr trivial) rfl (fun hlt hk => ?_)
  rcases hprocess with rfl | rfl
  · exact hk
  · exact Or.resolve_right hk (Nat.not_le.mpr hlt)

/-! ### The steps of a dedicated worker -/

theorem beforeUnpark_setDedicated {pc : DedicatedPc n} (h : BeforeUnpark pc) :
    BeforeUnpark ((s.setDedicated d pc).dedicated d) := by
  unfold setDedicated
  dsimp only
  rw [update_self]
  exact h

/-- A task of a dedicated worker registers a timer. From then on the dedicated worker is to
unpark. -/
theorem registerDedicated_ok (h : ParkingOk s) {s' : Parking n m}
    (hreg : s.tryRegister expireAt hasNode = .ok s') : ParkingOk (s'.setDedicated d .notify) := by
  obtain ⟨t, ht, rfl⟩ := tryRegister_eq_ok hreg
  have hnotify : ParkingOk (s.setDedicated d .notify) := h.setDedicated _ fun _ => Or.inl trivial
  exact hnotify.register ht fun _ _ => Or.inr ⟨d, beforeUnpark_setDedicated trivial⟩

/-- With a searching worker around nobody is unparked: the searching worker has not read the
promise yet. -/
theorem notify_ok (h : ParkingOk s) {s' : Parking n m}
    (hstep : (if ∃ w, (s.workers w).pc = .run true then some (s.setDedicated d .idle)
      else some (s.setDedicated d .choose)) = some s') : ParkingOk s' := by
  split at hstep
  · rename_i hsearching
    obtain ⟨w, hw⟩ := hsearching
    cases hstep
    refine h.setDedicated _ fun _ => Or.inr fun e => ⟨w, ?_⟩
    rw [hw]
    exact Or.inr trivial
  · cases hstep
    exact h.setDedicated _ fun _ => Or.inl trivial

theorem chooseSibling_ok (h : ParkingOk s) (hn : 0 < n) {pick : Option (Fin n)}
    {s' : Parking n m} (hstep : s.chooseSibling d pick = some s') : ParkingOk s' := by
  cases pick with
  | some w =>
      simp only [chooseSibling] at hstep
      split at hstep
      · cases hstep
        have hunlisted : ParkingOk (s.setWorker w { s.workers w with listed := false }) :=
          h.setWorker _ rfl (fun _ _ hcovers => Or.inl hcovers) (fun _ _ hk => hk)
            (fun _ he => Or.inl he)
        exact hunlisted.setDedicated _ fun _ => Or.inl trivial
      · cases hstep
  | none =>
      simp only [chooseSibling] at hstep
      split at hstep
      · split at hstep
        · rename_i hworkers
          have hlength := List.length_finRange (n := n)
          rw [hworkers] at hlength
          exact absurd hlength.symm hn.ne'
        · cases hstep
          exact h.setDedicated _ fun _ => Or.inl trivial
      · cases hstep

/-- The last unpark hands the timers to the worker that it notifies. -/
theorem unparkNext_ok (h : ParkingOk s) (w : Fin n) (pc : DedicatedPc n) :
    ParkingOk ((s.unpark w).setDedicated d pc) := by
  refine (h.unpark w).setDedicated _ fun _ => Or.inr fun e => ⟨w, Or.inl ?_⟩
  unfold unpark
  rw [setWorker_self]

end

/-! ### Runs -/

section

variable {s s' : Parking n m} {w : Fin n} {d : Fin m}

/-- A worker in its run loop sees the timers again before it sleeps. -/
theorem stepRun_ok {a : RunAction} (h : ParkingOk s) (hstep : s.stepRun w a = some s') :
    ParkingOk s' := by
  unfold stepRun at hstep
  split at hstep
  · -- search
    rename_i hpc
    cases hstep
    exact h.wake _ hpc (fun _ => Or.inr trivial) rfl (fun _ hk => hk)
  · -- beginRegister
    rename_i hpc
    split at hstep <;> cases hstep
    exact h.wake _ hpc (fun _ => Or.inr trivial) rfl (fun _ hk => hk)
  · -- register
    rename_i hpc
    split at hstep
    · rename_i hreg
      cases hstep
      exact register_ok h hpc hreg
    · cases hstep
      exact h.wake _ hpc (fun _ => Or.inr trivial) rfl (fun _ hk => hk)
  · -- beginProcess
    rename_i hpc
    split at hstep <;> cases hstep
    exact h.wake _ hpc (fun _ => Or.inr trivial) rfl (fun _ hk => hk)
  · -- process
    rename_i hpc
    cases hstep
    exact process_ok h hpc (Or.inl rfl)
  · -- park
    rename_i hpc
    cases hstep
    exact h.wake _ hpc (fun _ => Or.inr trivial) rfl (fun _ hk => hk)
  · cases hstep

/-- On the way to sleep, a worker that stops to cover the earliest deadline leaves it to one that
does. -/
theorem stepSleep_ok {a : SleepAction} (h : ParkingOk s) (hguard : ParkGuard s (.sleep w a))
    (hstep : s.stepSleep w a = some s') : ParkingOk s' := by
  unfold stepSleep at hstep
  split at hstep
  · -- recheck
    rename_i hpc
    cases hstep
    exact h.wake _ hpc (fun _ => Or.inr trivial) rfl (fun _ hk => hk)
  · -- load
    rename_i hpc
    cases hstep
    exact load_ok h hpc
  · -- lock
    rename_i hpc
    split at hstep <;> cases hstep
    exact h.setWorker _ hpc (fun _ _ hcovers => Or.inl hcovers) (fun _ _ hk => hk)
      (fun _ he => nomatch he)
  · -- tryWriteFails
    rename_i hpc
    split at hstep
    · rename_i hfails
      cases hstep
      exact tryWriteFails_ok h hpc hfails.1 hguard
    · cases hstep
  · -- lookup
    rename_i hpc
    cases hstep
    exact lookup_ok h hpc
  · -- decide
    rename_i hpc
    cases hstep
    refine decidePark_ok h hpc ?_
    rw [← hpc]
    exact hguard
  · -- preStage
    rename_i hpc
    exact preStage_ok h hpc hstep
  · -- promise
    rename_i hpc
    cases hstep
    exact afterParkDecision_ok h hpc
  · cases hstep

/-- A worker on its way back processes the timers. One that timed out forgets its promise, and
the clock has reached the promise then. -/
theorem stepWake_ok {a : WakeAction} (h : ParkingOk s) (hstep : s.stepWake w a = some s') :
    ParkingOk s' := by
  unfold stepWake at hstep
  split at hstep
  · -- rearm
    rename_i hpc
    cases hstep
    exact h.wake _ hpc (fun _ => Or.inr trivial) rfl (fun _ hk => Or.inl hk)
  · -- notified
    rename_i hpc
    split at hstep <;> cases hstep
    exact h.wake _ hpc (fun _ => Or.inr trivial) rfl (fun _ hk => Or.inl hk.1)
  · -- ioEvent
    rename_i hpc
    split at hstep <;> cases hstep
    exact h.wake _ hpc (fun _ => Or.inr trivial) rfl (fun _ hk => Or.inl hk.1)
  · -- timeout
    rename_i hpc
    split at hstep
    · rename_i hdue
      cases hstep
      refine h.wake _ hpc (fun _ => Or.inr trivial) rfl (fun _ hk => Or.inr ?_)
      rw [← Option.some.inj hk.2]
      exact hdue
    · cases hstep
  · -- leave
    rename_i hpc
    cases hstep
    exact h.wake _ hpc (fun _ => Or.inr trivial) rfl (fun _ hk => hk)
  · -- beginProcess
    rename_i hpc
    split at hstep <;> cases hstep
    exact h.wake _ hpc (fun _ => Or.inr trivial) rfl (fun _ hk => hk)
  · -- process
    rename_i hpc
    cases hstep
    exact process_ok h hpc (Or.inr rfl)
  · cases hstep

/-- A dedicated worker is to unpark from its registration on, and the worker it unparks last is
notified. -/
theorem stepDedicated_ok (hn : 0 < n) {a : DedicatedAction n} (h : ParkingOk s)
    (hstep : s.stepDedicated d a = some s') : ParkingOk s' := by
  unfold stepDedicated at hstep
  split at hstep
  · -- beginRegister
    rename_i hpc
    split at hstep <;> cases hstep
    refine h.setDedicated _ fun hbefore => ?_
    rw [hpc] at hbefore
    exact hbefore.elim
  · -- register
    rename_i hpc
    split at hstep
    · rename_i hreg
      cases hstep
      exact registerDedicated_ok h hreg
    · cases hstep
      refine h.setDedicated _ fun hbefore => ?_
      rw [hpc] at hbefore
      exact hbefore.elim
  · -- notify
    exact notify_ok h hstep
  · -- choose
    exact chooseSibling_ok h hn hstep
  · -- unpark, the last one
    cases hstep
    exact unparkNext_ok h _ _
  · -- unpark, with others to come
    cases hstep
    exact unparkNext_ok h _ _
  · cases hstep

/-- Every step that meets the guard keeps the invariant. -/
theorem step_ok (hn : 0 < n) {a : ParkAction n m} (h : ParkingOk s) (hguard : ParkGuard s a)
    (hstep : s.step a = some s') : ParkingOk s' := by
  cases a with
  | tick ms =>
      cases hstep
      exact h.tick ms
  | unpark w =>
      cases hstep
      exact h.unpark w
  | run w a => exact stepRun_ok h hstep
  | sleep w a => exact stepSleep_ok h hguard hstep
  | wake w a => exact stepWake_ok h hstep
  | dedicated d a => exact stepDedicated_ok hn h hstep

end

/-- A worker that covers a deadline is awake, notified, or asleep until no later than it. -/
theorem Covers.responsible {last : Nat} {pc : WorkerPc} {state : WorkerState}
    (h : Covers last e pc state) :
    (Awake pc ∨ state = .notified) ∨ ∃ e' ∈ sleepsUntil pc, e' ≤ e := by
  rcases h with hnotified | hpc
  · exact Or.inl (Or.inr hnotified)
  · cases pc with
    | promise expire => exact Or.inr ⟨expire, rfl, hpc⟩
    | parked timeout => exact Or.inr hpc
    | _ => exact Or.inl (Or.inl trivial)

theorem ParkingOk.responsible {s : Parking n m} (h : ParkingOk s)
    (hpending : s.timers.pending ≠ []) : Responsible s := by
  obtain ⟨g, hg⟩ := List.exists_mem_of_ne_nil _ hpending
  obtain ⟨e, he, -⟩ := exists_nextProcessTime hg
  rcases h.covered e he with ⟨w, hw⟩ | hd
  · rcases hw.responsible with hawake | ⟨e', he', hle⟩
    · exact Or.inl ⟨w, hawake⟩
    · exact Or.inr (Or.inl ⟨w, e', he', fun deadline hmem =>
        hle.trans (nextProcessTime_le he deadline hmem)⟩)
  · exact Or.inr (Or.inr hd)

/-- In every run whose steps meet the guard, from any number of workers, a pending timer has
somebody who will see it in time. -/
theorem pending_timer_has_worker (hn : 0 < n) {s : Parking n m}
    (h : Reaches Parking.step ParkGuard (Parking.new n m) s) (hpending : s.timers.pending ≠ []) :
    Responsible s :=
  (h.invariant parkingOk_new fun _ _ _ hok hguard hstep => step_ok hn hok hguard hstep).responsible
    hpending

instance : DecidablePred Awake
  | .promise _ | .parked _ => .isFalse id
  | .run _ | .register _ | .process | .load | .access _ _ | .lookup _ _ | .decide _ _ _
  | .sleep _ | .rearm | .leave | .exit | .exitProcess => .isTrue trivial

instance : DecidablePred (BeforeUnpark (n := n))
  | .notify | .choose | .unpark _ _ => .isTrue trivial
  | .idle | .register _ => .isFalse id

instance (s : Parking n m) : Decidable (Responsible s) :=
  inferInstanceAs (Decidable ((∃ w, Awake (s.workers w).pc ∨ (s.workers w).state = .notified) ∨
    (∃ w, ∃ e ∈ sleepsUntil (s.workers w).pc, ∀ deadline ∈ s.timers.pending, e ≤ deadline) ∨
    ∃ d, BeforeUnpark (s.dedicated d)))

instance (t : Timers) : DecidablePred (HoldsForItself t)
  | .register _ | .process | .exitProcess => .isTrue trivial
  | .lookup previous promised =>
      inferInstanceAs (Decidable (t.nextProcessTime = some promised → previous = promised))
  | .run _ | .load | .access _ _ | .decide _ _ _ | .sleep _ | .rearm | .promise _ | .parked _
  | .leave | .exit => .isFalse id

instance (t : Timers) (pc : WorkerPc) : Decidable (PromiseNotDue t pc) := by
  cases pc with
  | decide previous promised expire =>
      cases expire with
      | none => exact .isTrue trivial
      | some expire =>
          exact inferInstanceAs (Decidable
            (expire = promised → previous ≠ expire → t.lastCheckTime < expire))
  | _ => exact .isTrue trivial

instance (s : Parking n m) : DecidablePred (ParkGuard s)
  | .sleep _ .tryWriteFails =>
      inferInstanceAs (Decidable
        (s.timers.pending = [] ∨ ∃ w, HoldsForItself s.timers (s.workers w).pc))
  | .sleep w .decide => inferInstanceAs (Decidable (PromiseNotDue s.timers (s.workers w).pc))
  | .tick _ | .unpark _ | .run _ _ | .wake _ _ | .dedicated _ _ | .sleep _ .recheck
  | .sleep _ .load | .sleep _ .lock | .sleep _ .lookup | .sleep _ (.preStage _)
  | .sleep _ .promise => .isTrue trivial

/-- A task of the worker registers a timer. -/
def registerTimer (w : Fin n) (expireAt : Nat) : List (ParkAction n m) :=
  [.run w (.beginRegister expireAt), .run w (.register true)]

/-- The worker runs out of work and looks at the timers on its way to sleep. -/
def parkUpToSleep (w : Fin n) : List (ParkAction n m) :=
  .run w .park :: [SleepAction.load, .lock, .lookup, .decide, .preStage false].map (.sleep w)

/-- The wait of the worker ends by its timeout, and it processes the timers. -/
def timeOut (w : Fin n) : List (ParkAction n m) :=
  [WakeAction.timeout, .leave, .beginProcess, .process].map (.wake w)

/-- Two workers asleep on one timer: the first with a timeout, the second trusts its promise. -/
theorem promised_timer_has_worker :
    ∃ s : Parking 2 0, Reaches Parking.step ParkGuard (Parking.new 2 0) s ∧
      s.timers.pending = [10] ∧ (s.workers 0).pc = .parked (some 10) ∧
      (s.workers 1).pc = .parked none ∧ Responsible s := by
  have hexists : ∃ s : Parking 2 0, Reaches Parking.step ParkGuard (Parking.new 2 0) s ∧
      s.timers.pending = [10] ∧ (s.workers 0).pc = .parked (some 10) ∧
      (s.workers 1).pc = .parked none :=
    exists_reaches (registerTimer 0 10 ++ parkUpToSleep 0 ++ [ParkAction.sleep 0 .promise] ++
        parkUpToSleep 1)
      (by decide +kernel)
  obtain ⟨s, hreaches, hpending, hfirst, hsecond⟩ := hexists
  exact ⟨s, hreaches, hpending, hfirst, hsecond,
    pending_timer_has_worker (by decide) hreaches (by rw [hpending]; exact List.cons_ne_nil _ _)⟩

/-- A promise that outlives its keeper, with one worker. It sleeps on a timer for 10 ms, times
out and processes the timers at 10 ms. A task then registers a timer for 10 ms. The promise is
still 10 and the stash is cleared, so the worker takes the deadline for the promise of another
worker and sleeps without a timeout. -/
theorem promise_outlives_keeper :
    ∃ s : Parking 1 0, Reaches Parking.step anyStep (Parking.new 1 0) s ∧
      s.timers.pending = [10] ∧ ¬ Responsible s :=
  exists_reaches (registerTimer 0 10 ++ parkUpToSleep 0 ++
    [ParkAction.sleep 0 .promise, .tick 10] ++ timeOut 0 ++ registerTimer 0 10 ++ parkUpToSleep 0) (by decide +kernel)

-- The second gap: the lock is held by a dedicated worker whose registration then fails.
example : ∃ s : Parking 1 1, Reaches Parking.step anyStep (Parking.new 1 1) s ∧
    s.timers.pending = [20] ∧ ¬ Responsible s :=
  exists_reaches (registerTimer 0 10 ++ parkUpToSleep 0 ++
    [ParkAction.sleep 0 .promise, .tick 10] ++ timeOut 0 ++ registerTimer 0 20 ++ [ParkAction.dedicated 0 (.beginRegister 30), .run 0 .park] ++
    [SleepAction.load, .tryWriteFails, .decide, .preStage false].map (.sleep 0) ++
    [ParkAction.dedicated 0 (.register false)]) (by decide +kernel)

end Kyron.Proofs.Scheduler
