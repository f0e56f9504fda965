import Kyron.Proofs.Task.Runner

/-!
# `Kyron.Proofs.Task.Owed`: a recorded notification has somebody who answers it

`Owed bit lanes s` says of one of the notification bits and of some lanes: while the task is
idle and the bit is set, a queue of these lanes holds an entry for it, or an activity is about to
push one there, or a worker has taken one and starts the poll.

`Owed.step` is the one argument about it. A notification is recorded together with an obligation
to push, and an obligation is given up only for an entry, an entry only for a worker that takes
it, and a worker that has taken it only for a run, which clears the bits. What is left to show
for a bit and its lanes is which exchanges set the bit, and that no push in these lanes is
dropped.
-/

set_option autoImplicit false

namespace Kyron.Proofs.Task

open Kyron.Task

variable {T : Type}

/-- A worker has taken an entry from the lane, and the word that it has read does not keep it from
the transition to running. -/
def Takes (lane : Lane) (pc : Pc) : Prop :=
  ∃ val, pc = .update (.toRunning lane) val ∧ ∀ v ∈ val, v.isIdle = true ∧ v.isCanceled = false

/-- The activity leads to a poll on the lane. -/
def Answers (lane : Lane) (pc : Pc) : Prop := PushesTo lane pc ∨ Takes lane pc

/-- An idle task with the bit has an entry in one of the lanes, or an activity that answers. -/
def Owed (bit : TaskStateSnapshot → Bool) (lanes : Lane → Prop) (s : Sys T) : Prop :=
  s.state.isIdle = true → s.state.isCanceled = false → bit s.state = true →
    ∃ lane, lanes lane ∧ (0 < s.entries lane ∨ ∃ t, Answers lane (s.pc t))

theorem not_answers_idle {lane : Lane} : ¬ Answers lane .idle := by
  rintro ((hpc | hpc) | ⟨_, hpc, -⟩) <;> cases hpc

theorem not_answers_update {lane : Lane} {op : Op} {val : Option TaskStateSnapshot}
    (hop : ∀ worker, op ≠ .toRunning worker) : ¬ Answers lane (.update op val) := by
  rintro ((hpc | hpc) | ⟨val, hpc, -⟩)
  · cases hpc
  · cases hpc
  · cases hpc
    exact hop _ rfl

/-- A worker that answers is not turned away by its closure. -/
theorem RunnerOk.not_answers_of_leaves {s : Sys T} (hok : RunnerOk s) {t : T} {op : Op}
    {v : TaskStateSnapshot} {next : Pc} {lane : Lane} (hpc : s.pc t = .update op (some v))
    (hleaves : Leaves v op next) : ¬ Answers lane (s.pc t) := by
  rw [hpc]
  rintro ((h | h) | ⟨val, h, htakes⟩)
  · cases h
  · cases h
  · cases h
    obtain ⟨hidle, hcanceled⟩ := htakes v rfl
    have hact := hok.activity t
    rw [hpc] at hact
    obtain ⟨p, hphase⟩ := (hact v rfl).1.phase
    have hpidle := hphase.idle
    have hrunning := hphase.running
    have hcompleted := hphase.completed
    cases hleaves <;> simp_all

theorem not_answers_of_asserts {op : Op} {v : TaskStateSnapshot} {lane : Lane}
    (hasserts : Asserts v op) : ¬ Answers lane (.update op (some v)) := by
  rintro ((h | h) | ⟨val, h, htakes⟩)
  · cases h
  · cases h
  · cases h
    cases hasserts with
    | toRunning worker hr hi =>
        rw [(htakes v rfl).1] at hi
        cases hi

section Steps

variable [DecidableEq T] {bit : TaskStateSnapshot → Bool} {lanes : Lane → Prop} {s s' : Sys T}
  {t : T} {pc : Pc}

/-- An activity that does not answer moves, and the word and the entries stay. -/
theorem Owed.move (h : Owed bit lanes s) (hstate : s'.state = s.state)
    (hentries : ∀ lane, s.entries lane ≤ s'.entries lane)
    (hpcs : s'.pc = Function.update s.pc t pc)
    (hself : ∀ lane, Answers lane (s.pc t) → 0 < s'.entries lane ∨ Answers lane pc) :
    Owed bit lanes s' := by
  intro hidle hcanceled hbit
  rw [hstate] at hidle hcanceled hbit
  obtain ⟨lane, hlane, howed⟩ := h hidle hcanceled hbit
  refine ⟨lane, hlane, ?_⟩
  rcases howed with hentry | ⟨t', hanswers⟩
  · exact Or.inl (Nat.lt_of_lt_of_le hentry (hentries lane))
  · by_cases ht : t' = t
    · subst ht
      refine (hself lane hanswers).imp_right fun hpc => ⟨t', ?_⟩
      rwa [hpcs, Function.update_self]
    · refine Or.inr ⟨t', ?_⟩
      rwa [hpcs, Function.update_of_ne ht]

/-- An activity that does not answer moves, and nothing else changes. -/
theorem Owed.goto (h : Owed bit lanes s) (hself : ∀ lane, ¬ Answers lane (s.pc t)) :
    Owed bit lanes (s.goto t pc) :=
  h.move rfl (fun _ => Nat.le_refl _) rfl fun lane hanswers => absurd hanswers (hself lane)

/-- The exchange that ends an update: who answered now runs the task, and who sets the bit of an
idle task is about to push. -/
theorem Owed.stores (h : Owed bit lanes s) (hok : RunnerOk s) {op : Op} {new : TaskStateSnapshot}
    {next : Pc} {n : Nat} (hpc : s.pc t = .update op (some s.state))
    (hst : Stores s.state op new next)
    (hset : new.isIdle = true → new.isCanceled = false → bit new = true →
      (s.state.isIdle = true ∧ s.state.isCanceled = false ∧ bit s.state = true) ∨
        ∃ lane, lanes lane ∧ PushesTo lane next) :
    Owed bit lanes ({ s with state := new, polls := n }.goto t next) := by
  intro hidle hcanceled hbit
  rcases hset hidle hcanceled hbit with ⟨hidle', hcanceled', hbit'⟩ | ⟨lane, hlane, hpushes⟩
  · obtain ⟨lane, hlane, howed⟩ := h hidle' hcanceled' hbit'
    refine ⟨lane, hlane, howed.imp_right ?_⟩
    rintro ⟨t', hanswers⟩
    have ht : t' ≠ t := by
      rintro rfl
      rw [hpc] at hanswers
      refine not_answers_update ?_ hanswers
      rintro worker rfl
      -- The worker that made this exchange runs the task now.
      obtain ⟨p, hphase⟩ := hok.phase
      cases hst with
      | toRunning _ hi _ _ _ =>
          have hp : p = .idle := by
            have hpidle := hphase.idle
            simp_all
          subst hp
          have hrunning := (hphase.unsetNotified.setRunning).idle
          have hidle : TaskStateSnapshot.isIdle _ = true := hidle
          cases hrunning.symm.trans hidle
    exact ⟨t', by rwa [goto_pc_other ht]⟩
  · exact ⟨lane, hlane, Or.inr ⟨t, Or.inl (by rwa [goto_pc_self])⟩⟩

/-- The entry goes, and the worker that takes it answers. -/
theorem Owed.pop (h : Owed bit lanes s) {lane : Lane} (hidle : s.pc t = .idle) :
    Owed bit lanes ((s.dequeue lane).goto t (.update (.toRunning lane) none)) := by
  intro hstate hcanceled hbit
  obtain ⟨lane', hlane, howed⟩ := h hstate hcanceled hbit
  refine ⟨lane', hlane, ?_⟩
  rcases howed with hentry' | ⟨t', hanswers⟩
  · by_cases hl : lane' = lane
    · subst hl
      refine Or.inr ⟨t, Or.inr ⟨none, ?_, fun v hv => nomatch hv⟩⟩
      rw [goto_pc_self]
    · left
      simpa [Sys.goto, Sys.dequeue, hl] using hentry'
  · have ht : t' ≠ t := by
      rintro rfl
      rw [hidle] at hanswers
      exact not_answers_idle hanswers
    exact Or.inr ⟨t', by rwa [goto_pc_other ht]⟩

/-- A worker that reads the word again finds it idle. -/
theorem Owed.load (h : Owed bit lanes s) {op : Op} {val : Option TaskStateSnapshot}
    (hpc : s.pc t = .update op val) : Owed bit lanes (s.goto t (.update op (some s.state))) := by
  intro hidle hcanceled hbit
  have hself : ∀ lane, Answers lane (s.pc t) →
      0 < s.entries lane ∨ Answers lane (.update op (some s.state)) := by
    intro lane hanswers
    rw [hpc] at hanswers
    rcases hanswers with (hout | hout) | ⟨val, hout, -⟩
    · cases hout
    · cases hout
    · cases hout
      refine Or.inr (Or.inr ⟨_, rfl, fun v hv => ?_⟩)
      cases hv
      exact ⟨hidle, hcanceled⟩
  have hmoved : Owed bit lanes (s.goto t (.update op (some s.state))) :=
    h.move rfl (fun _ => Nat.le_refl _) rfl hself
  exact hmoved hidle hcanceled hbit

/-- The obligation of the activity goes into the entry. -/
theorem Owed.pushes (h : Owed bit lanes s) {lane : Lane} (hpc : PushesTo lane (s.pc t)) :
    Owed bit lanes ((s.enqueue lane).goto t .idle) := by
  refine h.move rfl (fun lane' => ?_) rfl fun lane' hanswers => Or.inl ?_
  · by_cases hl : lane' = lane
    · subst hl
      simp [Sys.goto, Sys.enqueue]
    · simp [Sys.goto, Sys.enqueue, hl]
  · have hl : lane' = lane := by
      rcases hpc with hpc | hpc <;> rw [hpc] at hanswers <;>
        rcases hanswers with (hout | hout) | ⟨_, hout, -⟩ <;> cases hout <;> rfl
    subst hl
    simp [Sys.goto, Sys.enqueue]

/-- A step keeps `Owed` if the exchanges that set the bit of an idle task lead to a push in the
lanes, and no push there is dropped. -/
theorem Owed.step (h : Owed bit lanes s) (hok : RunnerOk s) {a : Action T} (heff : Effect s a s')
    (hset : ∀ t op new next, a = .advance t → s.pc t = .update op (some s.state) →
      Stores s.state op new next → new.isIdle = true → new.isCanceled = false → bit new = true →
      (s.state.isIdle = true ∧ s.state.isCanceled = false ∧ bit s.state = true) ∨
        ∃ lane, lanes lane ∧ PushesTo lane next)
    (hpush : ∀ t fits lane, a = .push t fits → lanes lane → PushesTo lane (s.pc t) →
      fits = true ∧ (s.pc t = .respawn .safety → s.hasSafety = true)) :
    Owed bit lanes s' := by
  cases heff with
  | call hcall hidle =>
      refine h.goto fun lane => ?_
      rw [hidle]
      exact not_answers_idle
  | pop hidle hentry => exact h.pop hidle
  | load hpc => exact h.load hpc
  | asserts hpc _ hasserts =>
      refine h.goto fun lane => ?_
      rw [hpc]
      exact not_answers_of_asserts hasserts
  | leaves hpc hcl hleaves => exact h.goto fun lane => hok.not_answers_of_leaves hpc hleaves
  | stores hpc hst => exact h.stores hok hpc hst (hset _ _ _ _ rfl hpc hst)
  | looks hpc | finds hpc | pending hpc =>
      refine h.goto fun lane => ?_
      rw [hpc]
      rintro ((hout | hout) | ⟨_, hout, -⟩) <;> cases hout
  | clears hpc | ready hpc =>
      refine h.move rfl (fun _ => Nat.le_refl _) rfl fun lane => ?_
      rw [hpc]
      rintro ((hout | hout) | ⟨_, hout, -⟩) <;> cases hout
  | pushes hpc => exact h.pushes hpc
  | @refused t lane fits pc hpc hfits hnext =>
      intro hidle hcanceled hbit
      obtain ⟨lane', hlane, howed⟩ := h hidle hcanceled hbit
      refine ⟨lane', hlane, howed.imp_right ?_⟩
      rintro ⟨t', hanswers⟩
      have ht : t' ≠ t := by
        rintro rfl
        have hpushes : PushesTo lane' (s.pc t') := by
          refine hanswers.resolve_right ?_
          rcases hpc with hpc | hpc <;> rw [hpc] <;> rintro ⟨_, hout, -⟩ <;> cases hout
        obtain ⟨hfits', hsafety⟩ := hpush t' fits lane' rfl hlane hpushes
        rcases hfits with hno | ⟨hrespawn, hnone⟩
        · rw [hfits'] at hno
          cases hno
        · rw [hsafety hrespawn] at hnone
          cases hnone
      exact ⟨t', by rwa [goto_pc_other ht]⟩
  | takes hcompleted hcanceled => exact h
  | noResult => exact h

end Steps

end Kyron.Proofs.Task
