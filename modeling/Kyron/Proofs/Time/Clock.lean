import Mathlib.Data.List.Basic
import Kyron.Time.Clock

/-!
# `Kyron.Proofs.Time.Clock`: the clock never goes back

`ThreadOk` says what a thread can rely on at its place: in the closure of `call_once` it is the
only one, past it the last instant is there, and with the mutex the last instant is the one it
has seen. `ThreadOk.frame` says that a step of another thread leaves that alone. With it the last
instant only grows, and a call returns the last instant while it has the mutex, so not less than
any instant returned before. `clock_not_back` is the result over whole runs, whatever the readings
of the system clock are.
-/

set_option autoImplicit false

namespace Kyron.Proofs.Time

open Kyron.Lib
open Kyron.Time

variable {T : Type} {s s' : Clock T} {t t' : T} {pc : ClockPc}

/-- What a thread can rely on at its place. -/
def ThreadOk (s : Clock T) (t : T) : ClockPc → Prop
  | .idle | .once => True
  | .initLock => s.init = .running t
  | .initReplace => s.init = .running t ∧ s.lock = some t
  | .initUnlock => s.init = .running t ∧ s.lock = some t ∧ s.last ≠ none
  | .initDone => s.init = .running t ∧ s.last ≠ none
  | .read => s.init = .complete
  | .lock now => s.init = .complete ∧ now ∈ s.readings
  | .compare now => s.init = .complete ∧ s.lock = some t ∧ now ∈ s.readings
  | .unlock now value =>
      -- the mutex is still held, so nobody has written since
      s.init = .complete ∧ s.lock = some t ∧ now ≤ value ∧ s.last = some value
  | .panicked => False

/-- A step of the thread `t` does not touch what another thread relies on: it changes the `Once`
only at its begin and from inside, the mutex only if it is free or its own, and the last instant
only with the mutex. -/
theorem ThreadOk.frame (h : ThreadOk s t' pc) (hne : t' ≠ t)
    (hinit : s'.init = s.init ∨ s.init = .incomplete ∨ s.init = .running t)
    (hlock : s'.lock = s.lock ∨ s.lock = none ∨ s.lock = some t)
    (hlast : s'.last = s.last ∨ s.lock = some t ∧ s'.last ≠ none)
    (hreadings : ∀ r ∈ s.readings, r ∈ s'.readings) : ThreadOk s' t' pc := by
  -- a place that names the `Once` or the mutex names `t'` there, against the change by `t`
  cases pc <;> simp only [ThreadOk] at h ⊢ <;> grind

/-- A call that has returned, as the `j`-th one. -/
structure CallOk (s : Clock T) (j : Nat) (call : ClockCall) : Prop where
  reading : call.reading ≤ call.value
  mem : call.value ∈ s.readings
  before_le : call.before ≤ j
  before : ∀ earlier ∈ s.calls.take call.before, earlier.value ≤ call.value

structure ClockOk (s : Clock T) : Prop where
  threads : ∀ t, ThreadOk s t (s.pc t)
  filled : s.init = .complete → s.last ≠ none
  called : s.calls ≠ [] → s.init = .complete
  last_mem : ∀ last ∈ s.last, last ∈ s.readings
  returned : ∀ call ∈ s.calls, ∀ last ∈ s.last, call.value ≤ last
  before_le : ∀ t, s.before t ≤ s.calls.length
  calls : ∀ j call, s.calls[j]? = some call → CallOk s j call

theorem clockOk_new : ClockOk (Clock.new : Clock T) where
  threads := fun _ => trivial
  filled := fun h => by cases h
  called := fun h => absurd rfl h
  last_mem := fun _ h => by cases h
  returned := fun _ h => by cases h
  before_le := fun _ => Nat.le_refl 0
  calls := fun _ _ h => by cases h

variable [DecidableEq T]

/-- The threads after a step of one of them. -/
theorem threads_goto {u : Clock T} (hself : ThreadOk u t pc)
    (hothers : ∀ t', t' ≠ t → ThreadOk u t' (u.pc t')) (t' : T) :
    ThreadOk (u.goto t pc) t' ((u.goto t pc).pc t') := by
  change ThreadOk u t' (Function.update u.pc t pc t')
  by_cases heq : t' = t
  · subst heq
    rwa [Function.update_self]
  · rw [Function.update_of_ne heq]
    exact hothers t' heq

/-- A step of a thread in a call that does not return from it. -/
theorem ClockOk.moves (h : ClockOk s) {u : Clock T} (hpcs : u.pc = s.pc)
    (hcalls : u.calls = s.calls) (hbefore : u.before = s.before)
    (hinit : u.init = s.init ∨ s.init = .incomplete ∨ s.init = .running t)
    (hlock : u.lock = s.lock ∨ s.lock = none ∨ s.lock = some t)
    (hlast : u.last = s.last ∨ s.lock = some t ∧ u.last ≠ none)
    (hreadings : ∀ r ∈ s.readings, r ∈ u.readings) (hself : ThreadOk u t pc)
    (hfilled : u.init = .complete → u.last ≠ none) (hcalled : s.calls ≠ [] → u.init = .complete)
    (hmem : ∀ last ∈ u.last, last ∈ u.readings)
    (hreturned : ∀ call ∈ s.calls, ∀ last ∈ u.last, call.value ≤ last) :
    ClockOk (u.goto t pc) where
  threads := by
    refine threads_goto hself fun t' hne => ?_
    -- only the place of `t` changes
    rw [hpcs]
    exact (h.threads t').frame hne hinit hlock hlast hreadings
  filled := hfilled
  called := fun hne => hcalled (hcalls ▸ hne)
  last_mem := hmem
  returned := fun call hcall => hreturned call (hcalls ▸ hcall)
  before_le := by
    change ∀ t, u.before t ≤ u.calls.length
    rw [hbefore, hcalls]
    exact h.before_le
  calls := by
    intro j call hj
    change u.calls[j]? = some call at hj
    rw [hcalls] at hj
    have hok := h.calls j call hj
    refine ⟨hok.reading, hreadings _ hok.mem, hok.before_le, ?_⟩
    change ∀ earlier ∈ u.calls.take call.before, earlier.value ≤ call.value
    rw [hcalls]
    exact hok.before

/-- A step that changes at most the `Once` and the mutex. -/
theorem ClockOk.moves_shared (h : ClockOk s) (init : OnceState T) (lock : Option T)
    (hinit : init = s.init ∨ s.init = .incomplete ∨ s.init = .running t)
    (hlock : lock = s.lock ∨ s.lock = none ∨ s.lock = some t)
    (hself : ThreadOk { s with init, lock } t pc) (hfilled : init = .complete → s.last ≠ none)
    (hcalled : s.calls ≠ [] → init = .complete) : ClockOk ({ s with init, lock }.goto t pc) :=
  h.moves rfl rfl rfl hinit hlock (Or.inl rfl) (fun _ => id) hself hfilled hcalled h.last_mem
    h.returned

/-- A call begins. -/
theorem ClockOk.now (h : ClockOk s) :
    ClockOk ({ s with before := Function.update s.before t s.calls.length }.goto t .once) where
  threads := threads_goto trivial fun t' _ => h.threads t'
  filled := h.filled
  called := h.called
  last_mem := h.last_mem
  returned := h.returned
  before_le := by
    intro t'
    change Function.update s.before t s.calls.length t' ≤ s.calls.length
    rw [Function.update_apply]
    split
    · exact Nat.le_refl _
    · exact h.before_le t'
  calls := fun j call hj =>
    have hok := h.calls j call hj
    ⟨hok.reading, hok.mem, hok.before_le, hok.before⟩

/-- A call returns. It has the mutex, so its value is the last instant. -/
theorem ClockOk.unlock (h : ClockOk s) {now value : Nat} (hpc : s.pc t = .unlock now value) :
    ClockOk ({ s with
      lock := none
      calls := s.calls ++ [ClockCall.mk (s.before t) now value] }.goto t .idle) := by
  have hself := h.threads t
  rw [hpc] at hself
  obtain ⟨hcomplete, hlock, hle, hlast⟩ := hself
  have htake : ∀ k, k ≤ s.calls.length →
      (s.calls ++ [ClockCall.mk (s.before t) now value]).take k = s.calls.take k := fun k hk =>
    List.take_append_of_le_length hk
  refine ⟨?_, h.filled, fun _ => hcomplete, h.last_mem, fun call hmem last hl => ?_, fun t' => ?_,
    fun j call hj => ?_⟩
  · refine threads_goto trivial fun t' hne => ?_
    exact (h.threads t').frame hne (Or.inl rfl) (Or.inr (Or.inr hlock)) (Or.inl rfl) fun _ => id
  · -- the new value is the last instant itself
    rcases List.mem_append.mp hmem with hmem | hmem
    · exact h.returned call hmem last hl
    · cases List.mem_singleton.mp hmem
      rw [show s.last = some last from hl] at hlast
      cases hlast
      exact Nat.le_refl _
  · have hle := h.before_le t'
    change s.before t' ≤ (s.calls ++ [_]).length
    rw [List.length_append]
    omega
  · change (s.calls ++ [_])[j]? = some call at hj
    rw [List.getElem?_append] at hj
    split at hj
    next hlt =>
      have hok := h.calls j call hj
      refine ⟨hok.reading, hok.mem, hok.before_le, fun earlier hmem => hok.before earlier ?_⟩
      rwa [← htake _ (by have hj := hok.before_le; omega)]
    next hge =>
      cases List.mem_singleton.mp (List.mem_of_getElem? hj)
      have hbefore := h.before_le t
      refine ⟨hle, h.last_mem value hlast, Nat.le_trans hbefore (Nat.not_lt.mp hge),
        fun earlier hmem => ?_⟩
      change earlier ∈ (s.calls ++ [_]).take (s.before t) at hmem
      rw [htake _ hbefore] at hmem
      exact h.returned earlier (List.mem_of_mem_take hmem) value hlast

/-- The answer is chosen with the mutex. -/
theorem ClockOk.compare (h : ClockOk s) {now : Nat} (hpc : s.pc t = .compare now) :
    ClockOk (s.compare t now) := by
  have hself := h.threads t
  rw [hpc] at hself
  obtain ⟨hcomplete, hlock, hnow⟩ := hself
  unfold Clock.compare
  split
  next hnone => exact absurd hnone (h.filled hcomplete)
  next last hlast =>
    split
    next hlater =>
      have hsome : ∀ last' ∈ some now, last' = now := fun _ h => (Option.some.inj h).symm
      refine h.moves rfl rfl rfl (Or.inl rfl) (Or.inl rfl) (Or.inr ⟨hlock, fun h => by cases h⟩)
        (fun _ => id) ⟨hcomplete, hlock, Nat.le_refl now, rfl⟩ (fun _ h => by cases h) h.called
        (fun last' hl => hsome last' hl ▸ hnow) fun call hcall last' hl => ?_
      rw [hsome last' hl]
      exact Nat.le_trans (h.returned call hcall last hlast) (Nat.le_of_lt hlater)
    next hnotLater =>
      exact h.moves_shared s.init s.lock (Or.inl rfl) (Or.inl rfl)
        ⟨hcomplete, hlock, Nat.not_lt.mp hnotLater, hlast⟩ h.filled h.called

theorem ClockOk.advance (h : ClockOk s) (hstep : s.advance t = some s') : ClockOk s' := by
  have hself := h.threads t
  unfold Clock.advance at hstep
  split at hstep
  next hpc =>
    split at hstep
    next hinit =>
      cases hstep
      refine h.moves_shared (.running t) s.lock (Or.inr (Or.inl hinit)) (Or.inl rfl) rfl
        (fun h => by cases h) fun hne => ?_
      rw [h.called hne] at hinit
      cases hinit
    next => cases hstep
    next hinit =>
      cases hstep
      exact h.moves_shared s.init s.lock (Or.inl rfl) (Or.inl rfl) hinit h.filled h.called
  next hpc =>
    rw [hpc] at hself
    split at hstep
    next hfree =>
      cases hstep
      exact h.moves_shared s.init (some t) (Or.inl rfl) (Or.inr (Or.inl hfree)) ⟨hself, rfl⟩
        h.filled h.called
    next => cases hstep
  next hpc =>
    rw [hpc] at hself
    cases hstep
    exact h.moves_shared s.init none (Or.inl rfl) (Or.inr (Or.inr hself.2.1))
      ⟨hself.1, hself.2.2⟩ h.filled h.called
  next hpc =>
    rw [hpc] at hself
    cases hstep
    exact h.moves_shared .complete s.lock (Or.inr (Or.inr hself.1)) (Or.inl rfl) rfl
      (fun _ => hself.2) fun _ => rfl
  next now hpc =>
    rw [hpc] at hself
    split at hstep
    next hfree =>
      cases hstep
      exact h.moves_shared s.init (some t) (Or.inl rfl) (Or.inr (Or.inl hfree))
        ⟨hself.1, rfl, hself.2⟩ h.filled h.called
    next => cases hstep
  next now hpc =>
    cases hstep
    exact h.compare hpc
  next reading value hpc =>
    cases hstep
    exact h.unlock hpc
  all_goals cases hstep

/-- Every step keeps `ClockOk`. -/
theorem ClockOk.step (h : ClockOk s) {a : ClockAction T} (hstep : s.step a = some s') :
    ClockOk s' := by
  cases a with
  | now t =>
      simp only [Clock.step] at hstep
      split at hstep
      · cases hstep
        exact h.now
      · cases hstep
  | advance t => exact h.advance hstep
  | reads t reading =>
      have hself := h.threads t
      have hold : ∀ r ∈ s.readings, r ∈ s.readings ++ [reading] := fun r hr =>
        List.mem_append_left _ hr
      have hnew : reading ∈ s.readings ++ [reading] :=
        List.mem_append_right _ (List.mem_singleton_self reading)
      simp only [Clock.step] at hstep
      split at hstep
      next hpc =>
        -- no call has returned before the closure is over
        rw [hpc] at hself
        have hnone : s.calls = [] := by
          by_contra hne
          have hcomplete := h.called hne
          rw [hself.1] at hcomplete
          cases hcomplete
        cases hstep
        refine h.moves rfl rfl rfl (Or.inl rfl) (Or.inl rfl)
          (Or.inr ⟨hself.2, fun h => by cases h⟩) hold ⟨hself.1, hself.2, fun h => by cases h⟩
          (fun _ h => by cases h) h.called (fun last hl => Option.some.inj hl ▸ hnew)
          fun call hcall => ?_
        rw [hnone] at hcall
        cases hcall
      next hpc =>
        rw [hpc] at hself
        cases hstep
        exact h.moves rfl rfl rfl (Or.inl rfl) (Or.inl rfl) (Or.inl rfl) hold ⟨hself, hnew⟩
          h.filled h.called (fun last hl => hold last (h.last_mem last hl)) h.returned
      next => cases hstep

/-! ### Every run -/

/-- In every run, whatever the readings of the system clock are: a call that begins after another
one has returned does not return an earlier instant. It returns a reading of the system clock
that is not earlier than its own, and no call panics. -/
theorem clock_not_back {s : Clock T} (hrun : Reaches Clock.step anyStep Clock.new s) :
    (∀ t, s.pc t ≠ .panicked) ∧ ∀ (j : Nat) (call : ClockCall), s.calls[j]? = some call →
      call.reading ≤ call.value ∧ call.value ∈ s.readings ∧
        ∀ (i : Nat) (earlier : ClockCall), i < call.before → s.calls[i]? = some earlier →
          earlier.value ≤ call.value := by
  have hok : ClockOk s := hrun.invariant (I := ClockOk) clockOk_new
    fun _ _ _ h _ hstep => h.step hstep
  refine ⟨fun t hpc => ?_, fun j call hj => ?_⟩
  · have hself := hok.threads t
    rw [hpc] at hself
    exact hself
  · have hcall := hok.calls j call hj
    refine ⟨hcall.reading, hcall.mem, fun i earlier hi hearlier => hcall.before earlier ?_⟩
    rw [← List.getElem?_take_of_lt hi] at hearlier
    exact List.mem_of_getElem? hearlier

/-- The system clock goes back from 20 to 10 between two calls. The second one answers 20. -/
theorem clock_not_back_corrected :
    ∃ s : Clock (Fin 1), Reaches Clock.step anyStep Clock.new s ∧
      s.calls = [⟨0, 20, 20⟩, ⟨1, 10, 20⟩] ∧ ∀ t, s.pc t ≠ .panicked := by
  obtain ⟨s, hrun, hcalls⟩ : ∃ s : Clock (Fin 1), Reaches Clock.step anyStep Clock.new s ∧
      s.calls = [⟨0, 20, 20⟩, ⟨1, 10, 20⟩] :=
    exists_reaches [ClockAction.now 0, .advance 0, .advance 0, .reads 0 5, .advance 0, .advance 0,
      .reads 0 20, .advance 0, .advance 0, .advance 0, .now 0, .advance 0, .reads 0 10, .advance 0,
      .advance 0, .advance 0] (by decide +kernel)
  exact ⟨s, hrun, hcalls, (clock_not_back hrun).1⟩

end Kyron.Proofs.Time
