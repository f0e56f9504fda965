import Mathlib.Data.List.Perm.Basic
import Kyron.Proofs.Scheduler.Turns
import Kyron.Scheduler.SearchLog

/-!
# `Kyron.Proofs.Scheduler.Parked`: the list of parked workers and the searching counter

A worker is in the list only at the places between its push and its `transition_from_parked`
(`ParkedOk`). It is not there when it comes to push itself, so no index is in the list twice, and
the list has room for it. A notifier may have removed the index before: then
`transition_from_parked` finds nothing, and that is all the difference.

A worker leaves the counter once for each time it has entered it (`SearchOk`). `local_state` is
still `Searching` while it parks, but between `transition_to_parked` and its loop no step lowers
the counter, and the loop begins with `Executing`. `parked_and_searching_exact` is the result.
-/

set_option autoImplicit false

namespace Kyron.Proofs.Scheduler

open Kyron.Lib
open Kyron.Scheduler
open AsyncWorkers

variable {n : Nat} {K O : Type}

/-! ### The list -/

/-- `swap_remove` takes one element out and keeps the others. -/
theorem swapRemove_perm {α : Type} {l : List α} {i : Nat} (hi : i < l.length) :
    (l[i] :: swapRemove l i).Perm l := by
  rcases List.eq_nil_or_concat' l with rfl | ⟨init, last, rfl⟩
  · cases hi
  have hle : i < init.length + 1 := by
    rwa [List.length_append, List.length_singleton] at hi
  simp only [swapRemove, List.getLast?_concat]
  by_cases hinit : i < init.length
  · -- The last element comes to the place of the one that is removed.
    rw [List.set_append_left i last hinit, List.dropLast_concat, List.getElem_append_left hinit]
    calc List.Perm (init[i] :: init.set i last) (init[i] :: last :: init.eraseIdx i) :=
          (List.set_perm_cons_eraseIdx hinit last).cons _
      List.Perm _ (last :: init[i] :: init.eraseIdx i) := .swap _ _ _
      List.Perm _ (last :: init) := (List.getElem_cons_eraseIdx_perm hinit).cons _
      List.Perm _ (init ++ [last]) := (List.perm_append_singleton last init).symm
  · obtain rfl : i = init.length := by omega
    rw [List.set_append_right _ _ (le_refl _), Nat.sub_self]
    simp only [List.set_cons_zero, List.dropLast_concat, List.getElem_concat_length]
    exact (List.perm_append_singleton last init).symm

/-- The list after the removal of some index, if there is one. -/
theorem pickTargets_parked (s : AsyncWorkers n K O) (current : Option (Fin n)) :
    (s.pickTargets current).2.parked = s.parked ∨
      ∃ w, (w :: (s.pickTargets current).2.parked).Perm s.parked := by
  unfold pickTargets
  split
  · rename_i i hfind
    exact Or.inr ⟨_, swapRemove_perm (List.findIdx?_eq_some_iff_findIdx_eq.mp hfind).1⟩
  · exact Or.inl rfl

/-- `transition_from_parked` removes the index of the worker, or it was not in the list. -/
theorem transitionFromParked_parked (s : AsyncWorkers n K O) (w : Fin n) :
    ((s.transitionFromParked w).parked = s.parked ∧ w ∉ s.parked) ∨
      (w :: (s.transitionFromParked w).parked).Perm s.parked := by
  unfold transitionFromParked
  split
  · rename_i i hfind
    obtain ⟨hi, hw, -⟩ := List.findIdx?_eq_some_iff_getElem.mp hfind
    have hperm := swapRemove_perm hi
    rw [of_decide_eq_true hw] at hperm
    exact Or.inr hperm
  · rename_i hfind
    refine Or.inl ⟨rfl, ?_⟩
    intro hmem
    have := List.findIdx?_eq_none_iff.mp hfind w hmem
    simp at this

/-- What holds of the list in every state. -/
structure ParkedOk (s : AsyncWorkers n K O) : Prop where
  nodup : s.parked.Nodup
  listed : ∀ w ∈ s.parked, isListed (s.loop w).pc = true

variable {s s' : AsyncWorkers n K O} {w : Fin n}

/-- The list keeps some of its elements, and each of them is still at its place. -/
theorem ParkedOk.shrinks (h : ParkedOk s)
    (hparked : s'.parked = s.parked ∨ ∃ w, (w :: s'.parked).Perm s.parked)
    (hlisted : ∀ w ∈ s'.parked, isListed (s.loop w).pc = true → isListed (s'.loop w).pc = true) :
    ParkedOk s' := by
  have hsub : s'.parked.Nodup ∧ ∀ w ∈ s'.parked, w ∈ s.parked := by
    rcases hparked with heq | ⟨w, hperm⟩
    · rw [heq]
      exact ⟨h.nodup, fun _ => id⟩
    · refine ⟨(List.nodup_cons.mp (hperm.nodup_iff.mpr h.nodup)).2, ?_⟩
      intro w' hw'
      exact hperm.subset (List.mem_cons_of_mem w hw')
  refine ⟨hsub.1, ?_⟩
  intro w hw
  exact hlisted w hw (h.listed w (hsub.2 w hw))

/-- A worker that comes to push itself is not in the list. -/
theorem ParkedOk.not_mem (h : ParkedOk s) {last : Bool} (hpc : (s.loop w).pc = .listed last) :
    w ∉ s.parked := by
  intro hmem
  have hplace := h.listed w hmem
  rw [hpc] at hplace
  cases hplace

theorem ParkedOk.turn (h : ParkedOk s) (hturn : AsyncTurn s s' w) : ParkedOk s' := by
  have hlisted : (isListed (s.loop w).pc = true → isListed (s'.loop w).pc = true) →
      ∀ w', isListed (s.loop w').pc = true → isListed (s'.loop w').pc = true := by
    intro hself w'
    by_cases hw : w' = w
    · subst hw
      exact hself
    · rw [hturn.loop w' hw]
      exact id
  cases hturn.parked with
  | keeps hself hparked => exact h.shrinks (Or.inl hparked) fun w' _ => hlisted hself w'
  | picks hself hparked =>
      refine h.shrinks ?_ fun w' _ => hlisted hself w'
      rw [hparked]
      exact pickTargets_parked s (some w)
  | lists last hbefore hself hparked =>
      have hnot := h.not_mem hbefore
      constructor
      · rw [hparked, ← List.concat_eq_append]
        exact h.nodup.concat hnot
      · rw [hparked]
        intro w' hmem
        rcases List.mem_append.mp hmem with hold | hnew
        · have hw : w' ≠ w := by
            rintro rfl
            exact hnot hold
          rw [hturn.loop w' hw]
          exact h.listed w' hold
        · rw [List.mem_singleton.mp hnew]
          exact hself
  | unlists hparked =>
      have hnot : w ∉ s'.parked := by
        rw [hparked]
        rcases transitionFromParked_parked s w with ⟨heq, hnot⟩ | hperm
        · rwa [heq]
        · exact (List.nodup_cons.mp (hperm.nodup_iff.mpr h.nodup)).1
      refine h.shrinks ?_ ?_
      · rw [hparked]
        exact (transitionFromParked_parked s w).imp And.left fun hperm => ⟨w, hperm⟩
      · intro w' hmem hbefore
        have hw : w' ≠ w := by
          rintro rfl
          exact hnot hmem
        rwa [hturn.loop w' hw]

variable [DecidableEq O]

theorem ParkedOk.step (h : ParkedOk s) {a : AsyncAction n K O} (hstep : s.step a = some s') :
    ParkedOk s' := by
  cases ha : turnOf a with
  | some w => exact h.turn (step_turn ha hstep)
  | none =>
      obtain ⟨hloop, -, hparked⟩ := step_outside ha hstep
      refine h.shrinks ?_ ?_
      · rcases hparked with hparked | hparked
        · exact Or.inl hparked
        · rw [hparked]
          exact pickTargets_parked s none
      · intro w _
        rw [hloop]
        exact id

omit [DecidableEq O] in
/-- There is room for a worker that comes to push itself. -/
theorem ParkedOk.length_lt (h : ParkedOk s) {last : Bool} (hpc : (s.loop w).pc = .listed last) :
    s.parked.length < n := by
  -- With the worker in front it is still a list of different workers.
  have hlen := (List.nodup_cons.mpr ⟨h.not_mem hpc, h.nodup⟩).length_le_card
  rw [List.length_cons, Fintype.card_fin] at hlen
  exact hlen

/-! ### The counter -/

/-- What a step does to the counter. -/
inductive CounterStep (s s' : AsyncWorkers n K O) (a : AsyncAction n K O) : Prop
  | keeps (enters : s.entersSearch a = none) (leaves : s.leavesSearch a = none)
      (counter : s'.numOfSearchingWorkers = s.numOfSearchingWorkers)
  | enters (w : Fin n) (turn : turnOf a = some w) (enters : s.entersSearch a = some w)
      (leaves : s.leavesSearch a = none)
      (counter : s'.numOfSearchingWorkers = s.numOfSearchingWorkers + 1)
  | leaves (w : Fin n) (turn : turnOf a = some w) (enters : s.entersSearch a = none)
      (leaves : s.leavesSearch a = some w)
      (counter : s'.numOfSearchingWorkers = s.numOfSearchingWorkers - 1)

omit [DecidableEq O] in
theorem advance_counterStep (hstep : s.advance w = some s') : CounterStep s s' (.advance w) := by
  cases hpc : (s.loop w).pc with
  | execute notify =>
      simp only [advance, stepPick, hpc] at hstep
      split at hstep
      · rename_i hsearching
        cases hstep
        exact .leaves w rfl rfl (by simp [leavesSearch, hpc, hsearching]) rfl
      · rename_i hnot
        cases hstep
        exact .keeps rfl (by simp [leavesSearch, hpc, hnot]) rfl
  | toParked =>
      simp only [advance, stepPark, hpc, Option.ite_none_right_eq_some] at hstep
      obtain ⟨-, hstep⟩ := hstep
      split at hstep
      · rename_i hsearching
        cases hstep
        exact .leaves w rfl rfl (by simp [leavesSearch, hpc, hsearching]) rfl
      · rename_i hnot
        cases hstep
        exact .keeps rfl (by simp [leavesSearch, hpc, hnot]) rfl
  | pick site =>
      obtain ⟨parked, hparked⟩ := pickTargets_frame s (some w)
      simp only [advance, stepSpawn, hpc, hparked, Option.ite_none_right_eq_some] at hstep
      obtain ⟨-, hstep⟩ := hstep
      cases hstep
      exact .keeps rfl (by simp [leavesSearch, hpc]) rfl
  | unlist site =>
      obtain ⟨parked, hparked⟩ := transitionFromParked_frame s w
      simp only [advance, stepPark, hpc, hparked, Option.ite_none_right_eq_some] at hstep
      obtain ⟨-, hstep⟩ := hstep
      refine .keeps rfl (by simp [leavesSearch, hpc]) ?_
      cases site
      all_goals
        cases hstep
        rfl
  | within site =>
      simp only [advance, hpc] at hstep
      cases hstep
      refine .keeps rfl (by simp [leavesSearch, hpc]) ?_
      cases site <;> rfl
  | unpark site todo | steal todo stolen | recheckHead todo =>
      refine .keeps rfl (by simp [leavesSearch, hpc]) ?_
      cases todo
      all_goals
        simp only [advance, stepSpawn, stepSearch, stepPark, hpc] at hstep
        cases hstep
        try rfl
  | _ =>
      refine .keeps rfl (by simp [leavesSearch, hpc]) ?_
      simp only [advance, stepSpawn, stepPick, stepSearch, stepPark, stepParker, hpc] at hstep
      repeat' split at hstep
      all_goals
        cases hstep
        try rfl

/-- Only the workers that enter or leave a search change the counter. -/
theorem step_counterStep {a : AsyncAction n K O} (hstep : s.step a = some s') :
    CounterStep s s' a := by
  cases a with
  | advance w => exact advance_counterStep hstep
  | search w start =>
      simp only [step, search] at hstep
      split at hstep
      · rename_i hpc
        split at hstep
        · rename_i hsearching
          cases hstep
          exact .keeps (by simp [entersSearch, hpc, hsearching]) rfl rfl
        · rename_i hnot
          cases hstep
          exact .enters w rfl (by simp [entersSearch, hpc, hnot]) rfl rfl
      · cases hstep
  | outside o =>
      obtain ⟨parked, hparked⟩ := pickTargets_frame s none
      simp only [step, stepOutside, hparked] at hstep
      repeat' split at hstep
      all_goals
        cases hstep
        try exact .keeps rfl rfl rfl
  | _ =>
      simp only [step, steal, park] at hstep
      repeat' split at hstep
      all_goals
        cases hstep
        try exact .keeps rfl rfl rfl

instance (l : AsyncLoop n K) : Decidable (Counted l) := inferInstanceAs (Decidable (_ ∧ _))

/-- What holds of the notes in every state: a worker has entered the counter as often as it has
left it, and once more while it is counted. -/
structure SearchOk (l : SearchLog n K O) : Prop where
  workers : WorkersOk l.workers
  parked : ParkedOk l.workers
  notes : ∀ w, l.entered w = l.left w + if Counted (l.workers.loop w) then 1 else 0

omit [DecidableEq O] in
/-- The notes of the worker that moves. -/
theorem SearchOk.notes_turn {l : SearchLog n K O} (h : SearchOk l) (hok : WorkersOk s')
    (hloop : ∀ w', w' ≠ w → s'.loop w' = l.workers.loop w') :
    l.entered w + s'.numOfSearchingWorkers =
      l.left w + l.workers.numOfSearchingWorkers + if Counted (s'.loop w) then 1 else 0 := by
  have hcount := h.workers.count.add_ite hok.count hloop
  have hnotes := h.notes w
  omega

omit [DecidableEq O] in
/-- Who lowers the counter is in it. -/
theorem leavesSearch_counted {a : AsyncAction n K O} (h : s.leavesSearch a = some w) :
    turnOf a = some w ∧ Counted (s.loop w) := by
  cases a with
  | advance v =>
      simp only [leavesSearch] at h
      split at h
      case h_1 hpc | h_2 hpc =>
        split at h
        · rename_i hsearching
          cases h
          exact ⟨rfl, hsearching, by rw [hpc]; rfl⟩
        · cases h
      case h_3 => cases h
  | _ => cases h

theorem SearchOk.step (hn : 0 < n) {l l' : SearchLog n K O} (h : SearchOk l)
    {a : AsyncAction n K O} (hstep : l.step a = some l') : SearchOk l' := by
  obtain ⟨s', hs', rfl⟩ := Option.map_eq_some_iff.mp hstep
  have hok := asyncStep_ok hn h.workers hs'
  refine ⟨hok, h.parked.step hs', ?_⟩
  intro v
  show SearchLog.count l.entered (l.workers.entersSearch a) v =
    SearchLog.count l.left (l.workers.leavesSearch a) v + if Counted (s'.loop v) then 1 else 0
  cases step_counterStep hs' with
  | keeps henters hleaves hcounter =>
      rw [henters, hleaves]
      show l.entered v = l.left v + _
      cases ha : turnOf a with
      | none =>
          rw [(step_outside ha hs').1]
          exact h.notes v
      | some w =>
          have hloop := (step_turn ha hs').loop
          by_cases hv : v = w
          · subst hv
            have hnotes := h.notes_turn hok hloop
            omega
          · rw [hloop v hv]
            exact h.notes v
  | enters w ha henters hleaves hcounter =>
      have hloop := (step_turn ha hs').loop
      rw [henters, hleaves]
      show Function.update l.entered w (l.entered w + 1) v = l.left v + _
      by_cases hv : v = w
      · subst hv
        rw [Function.update_self]
        have hnotes := h.notes_turn hok hloop
        omega
      · rw [Function.update_of_ne hv, hloop v hv]
        exact h.notes v
  | leaves w ha henters hleaves hcounter =>
      have hloop := (step_turn ha hs').loop
      -- The worker is counted, so the counter does not go below zero.
      have hpos := h.workers.count.pos (leavesSearch_counted hleaves).2
      rw [henters, hleaves]
      show l.entered v = Function.update l.left w (l.left w + 1) v + _
      by_cases hv : v = w
      · subst hv
        rw [Function.update_self]
        have hnotes := h.notes_turn hok hloop
        omega
      · rw [Function.update_of_ne hv, hloop v hv]
        exact h.notes v

omit [DecidableEq O] in
theorem searchOk_start (localCapacity globalCapacity : Nat) :
    SearchOk (.start (.new localCapacity globalCapacity) : SearchLog n K O) where
  workers := workersOk_new localCapacity globalCapacity
  parked := ⟨List.nodup_nil, nofun⟩
  notes := fun _ => rfl

/-- In every state of every run of 1 to 128 workers:

* No index is twice in the list of parked workers. A worker that is about to push itself is not in
  it, and the list, which has a capacity of `n`, has room.
* Every worker has left the counter as often as it has entered it, or once less. The counter is
  the number of the workers that have entered and not left.
* A worker that is about to lower the counter has entered and not left, and the counter is
  positive.
* The counter is a `u8`, and so is its double when a worker asks whether it may search. -/
theorem parked_and_searching_exact (hn : 0 < n) (hmax : n ≤ 128)
    (localCapacity globalCapacity : Nat) {l : SearchLog n K O}
    (hrun : Reaches SearchLog.step anyStep (.start (.new localCapacity globalCapacity)) l) :
    (l.workers.parked.Nodup ∧ ∀ w last, (l.workers.loop w).pc = .listed last →
        w ∉ l.workers.parked ∧ l.workers.parked.length < n) ∧
      (∀ w, l.left w ≤ l.entered w ∧ l.entered w ≤ l.left w + 1) ∧
      l.workers.numOfSearchingWorkers =
        (Finset.univ.filter fun w => l.left w < l.entered w).card ∧
      (∀ a w, l.workers.leavesSearch a = some w →
        l.left w < l.entered w ∧ 0 < l.workers.numOfSearchingWorkers) ∧
      l.workers.numOfSearchingWorkers < 256 ∧
      ∀ w, (l.workers.loop w).pc = .searchLoad → (l.workers.loop w).isSearching = false →
        l.workers.numOfSearchingWorkers * 2 < 256 := by
  have hok : SearchOk l := by
    refine hrun.invariant (searchOk_start localCapacity globalCapacity) ?_
    intro l a l' hok _ hstep
    exact hok.step hn hstep
  have hcounted : ∀ w, l.left w < l.entered w ↔ Counted (l.workers.loop w) := by
    intro w
    have hnotes := hok.notes w
    split at hnotes
    · rename_i hyes
      exact iff_of_true (by omega) hyes
    · rename_i hno
      exact iff_of_false (by omega) hno
  have hcard := hok.workers.count.eq_card
  have hle : l.workers.numOfSearchingWorkers ≤ n := by
    rw [hcard]
    exact (Finset.card_le_univ _).trans_eq (Fintype.card_fin n)
  refine ⟨⟨hok.parked.nodup, ?_⟩, ?_, ?_, ?_, by omega, ?_⟩
  · intro w last hpc
    exact ⟨hok.parked.not_mem hpc, hok.parked.length_lt hpc⟩
  · intro w
    have hnotes := hok.notes w
    split at hnotes <;> omega
  · simp only [hcounted]
    exact hcard
  · intro a w hleaves
    have hself := (leavesSearch_counted hleaves).2
    exact ⟨(hcounted w).mpr hself, hok.workers.count.pos hself⟩
  · -- The worker that asks is not counted, so at most 127 others are.
    intro w _ hnot
    have hself : ¬ Counted (l.workers.loop w) := by
      intro hyes
      rw [hyes.1] at hnot
      cases hnot
    have hlt := hok.workers.count.lt_card hself
    rw [Fintype.card_fin] at hlt
    omega

/-- A single worker has searched in vain and left the counter, and is about to push itself to the
list. -/
theorem parked_and_searching_exact_one :
    ∃ l : SearchLog 1 Nat (Fin 1),
      Reaches SearchLog.step anyStep (.start (.new 4 4)) l ∧
      (l.workers.loop 0).pc = .listed true ∧ (l.workers.loop 0).isSearching = true ∧
      l.entered 0 = 1 ∧ 0 ∉ l.workers.parked ∧ l.workers.parked.length < 1 := by
  have hexists : ∃ l : SearchLog 1 Nat (Fin 1),
      Reaches SearchLog.step anyStep (.start (.new 4 4)) l ∧
        (l.workers.loop 0).pc = .listed true ∧ (l.workers.loop 0).isSearching = true ∧
        l.entered 0 = 1 :=
    exists_reaches (seek 0 ++ [AsyncAction.advance 0]) (by decide +kernel)
  obtain ⟨l, hrun, hpc, hsearching, hentered⟩ := hexists
  have hexact := parked_and_searching_exact (by decide) (by decide) 4 4 hrun
  exact ⟨l, hrun, hpc, hsearching, hentered, hexact.1.2 0 true hpc⟩

end Kyron.Proofs.Scheduler
