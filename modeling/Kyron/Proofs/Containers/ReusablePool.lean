import Kyron.Containers.ReusablePool
import Kyron.Lib.Transition

/-!
# `Kyron.Proofs.Containers.ReusablePool`: one holder for a slot, and one release of its memory

A slot goes through phases (`SlotPhase`): it is free, then taken by a call of `next`, then held by a
handle. The drop of the pool finds it free and releases it, or finds it held and leaves it to its
handle. `PhaseOk` says what the mark, the handles, the owner and the memory are in a phase, and
every step of a handle or of the owner moves one slot to its next phase.

* `reusable_pool_slots`: no slot has two handles, `next` fails exactly when its slot is taken, the
  memory of a slot is released once, when the pool and the handle are gone, and no `assert_eq`
  fails.
* `ValuesOk`: no value is overwritten, or used or dropped where there is none.
-/

set_option autoImplicit false

namespace Kyron.Proofs.Containers

open Kyron.Containers
open Kyron.Lib
open Function

variable {L H : Type} {n : Nat}

/-! ### Steps -/

section Steps

variable [DecidableEq H] [NeZero n]

/-- What a step can do. -/
inductive PoolStep (s : ReusablePool L H n) : ReusablePool L H n → Prop
  | refuse (e : CommonErrors) (howner : s.owner = .idle) : PoolStep s (s.answer (.error e))
  | take (h : H) (howner : s.owner = .idle) (hunborn : s.handles h = .unborn)
      (hfree : s.states s.index = .free) :
      PoolStep s { s.setMark s.index .taken with owner := .claimed s.index h }
  | finish (slot : Fin n) (h : H) (howner : s.owner = .claimed slot h) :
      PoolStep s (s.finishNext slot h)
  | dropPool (howner : s.owner = .idle) : PoolStep s { s with owner := .dropSwap 0 }
  | leave (slot : Fin n) (howner : s.owner = .dropSwap slot) (htaken : s.states slot = .taken) :
      PoolStep s { s.setMark slot .poolGone with owner := .dropSwap (slot + 1) }
  | keep (slot : Fin n) (howner : s.owner = .dropSwap slot) (hfree : s.states slot = .free) :
      PoolStep s { s with owner := .dropRelease slot }
  | ownerFails (slot : Fin n) (howner : s.owner = .dropSwap slot)
      (hgone : s.states slot = .poolGone) : PoolStep s { s with owner := .failed }
  | ownerReleases (slot : Fin n) (howner : s.owner = .dropRelease slot) :
      PoolStep s { s.releaseSlot slot with owner := .dropSwap (slot + 1) }
  | dropEnds (i : Nat) (howner : s.owner = .dropSwap i) (hi : n ≤ i) :
      PoolStep s { s with owner := .gone }
  | drop (h : H) (slot : Fin n) (hpc : s.handles h = .live slot) :
      PoolStep s (s.setHandle h (.clearing slot))
  | clear (h : H) (slot : Fin n) (hpc : s.handles h = .clearing slot) :
      PoolStep s ((s.clearSlot slot).setHandle h (.swap slot))
  | giveBack (h : H) (slot : Fin n) (hpc : s.handles h = .swap slot)
      (htaken : s.states slot = .taken) :
      PoolStep s ((s.setMark slot .free).setHandle h (.gone slot))
  | inherit (h : H) (slot : Fin n) (hpc : s.handles h = .swap slot)
      (hgone : s.states slot = .poolGone) : PoolStep s (s.setHandle h (.release slot))
  | handleFails (h : H) (slot : Fin n) (hpc : s.handles h = .swap slot)
      (hfree : s.states slot = .free) : PoolStep s (s.setHandle h (.failed slot))
  | handleReleases (h : H) (slot : Fin n) (hpc : s.handles h = .release slot) :
      PoolStep s ((s.releaseSlot slot).setHandle h (.gone slot))

variable {s s' : ReusablePool L H n}

theorem takeNext_cases (h : H) (howner : s.owner = .idle) (hunborn : s.handles h = .unborn) :
    PoolStep s (s.takeNext h) := by
  unfold ReusablePool.takeNext
  split
  · rename_i hfree
    exact .take h howner hunborn hfree
  · exact .refuse .noData howner

/-- The steps of `next_object` and of the drop of the pool. -/
theorem stepOwner_cases (hstep : s.stepOwner = some s') : PoolStep s s' := by
  unfold ReusablePool.stepOwner at hstep
  split at hstep
  · rename_i slot h howner
    cases hstep
    exact .finish slot h howner
  · rename_i i howner
    split at hstep
    · rename_i hi
      cases hstep
      unfold ReusablePool.swapGone
      split
      · rename_i htaken
        exact .leave ⟨i, hi⟩ howner htaken
      · rename_i hfree
        exact .keep ⟨i, hi⟩ howner hfree
      · rename_i hgone
        exact .ownerFails ⟨i, hi⟩ howner hgone
    · rename_i hi
      cases hstep
      exact .dropEnds i howner (Nat.not_lt.mp hi)
  · rename_i slot howner
    cases hstep
    exact .ownerReleases slot howner
  all_goals cases hstep

/-- The steps of the drop of a handle. -/
theorem stepHandle_cases {h : H} (hstep : s.stepHandle h = some s') : PoolStep s s' := by
  unfold ReusablePool.stepHandle at hstep
  split at hstep
  · rename_i slot hpc
    cases hstep
    exact .clear h slot hpc
  · rename_i slot hpc
    cases hstep
    unfold ReusablePool.swapFree
    split
    · rename_i htaken
      exact .giveBack h slot hpc htaken
    · rename_i hgone
      exact .inherit h slot hpc hgone
    · rename_i hfree
      exact .handleFails h slot hpc hfree
  · rename_i slot hpc
    cases hstep
    exact .handleReleases h slot hpc
  all_goals cases hstep

theorem poolStep_cases [DecidableEq L] {a : PoolAction L H} (hstep : s.step a = some s') :
    PoolStep s s' := by
  cases a with
  | nextObject h =>
      simp only [ReusablePool.step] at hstep
      split at hstep
      · rename_i howner hunborn
        cases hstep
        exact takeNext_cases h howner hunborn
      · cases hstep
  | next h layout =>
      simp only [ReusablePool.step] at hstep
      split at hstep
      · rename_i howner hunborn
        split at hstep
        · cases hstep
          exact takeNext_cases h howner hunborn
        · cases hstep
          exact .refuse .genericError howner
      · cases hstep
  | dropPool =>
      simp only [ReusablePool.step] at hstep
      split at hstep
      · rename_i howner
        cases hstep
        exact .dropPool howner
      · cases hstep
  | owner => exact stepOwner_cases hstep
  | drop h =>
      simp only [ReusablePool.step] at hstep
      split at hstep
      · rename_i slot hpc
        cases hstep
        exact .drop h slot hpc
      · cases hstep
  | handle h => exact stepHandle_cases hstep

end Steps

/-! ### The phases of a slot -/

/-- The slot that the handle has. -/
def slotOf : ObjectPc n → Option (Fin n)
  | .live slot | .clearing slot | .swap slot | .release slot => some slot
  | _ => none

/-- The drop of the pool has decided about the slot. -/
def passedBy : OwnerPc n H → Fin n → Bool
  | .dropSwap index, i => decide (i.val < index)
  | .dropRelease slot, i => decide (i.val < slot.val)
  | .gone, _ => true
  | _, _ => false

inductive SlotPhase (H : Type)
  | free
  /-- Taken by the call of `next` that makes the handle. -/
  | claimed (h : H)
  | held (h : H)
  /-- Held by a handle, and the pool is gone. -/
  | orphaned (h : H)
  /-- The handle has found the pool gone. -/
  | releasing (h : H)
  | released

namespace SlotPhase

def holder : SlotPhase H → Option H
  | .held h | .orphaned h | .releasing h => some h
  | _ => none

/-- The marks that the slot can have. -/
def Marked : SlotPhase H → SlotMark → Prop
  | .free, mark => mark = .free
  | .claimed _, mark | .held _, mark => mark = .taken
  | .orphaned _, mark | .releasing _, mark => mark = .poolGone
  | .released, mark => mark ≠ .taken

def isPassed : SlotPhase H → Bool
  | .orphaned _ | .releasing _ | .released => true
  | _ => false

/-- How often the memory has been released. -/
def releases : SlotPhase H → Nat
  | .released => 1
  | _ => 0

end SlotPhase

section Phases

variable {s s' : ReusablePool L H n} {i j : Fin n} {φ : SlotPhase H} {h : H}

/-- The slot is in the phase. -/
structure PhaseOk (s : ReusablePool L H n) (i : Fin n) (φ : SlotPhase H) : Prop where
  mark : φ.Marked (s.states i)
  holder : ∀ h, slotOf (s.handles h) = some i ↔ φ.holder = some h
  releasing : ∀ h, s.handles h = .release i ↔ φ = .releasing h
  claimed : ∀ h, s.owner = .claimed i h ↔ φ = .claimed h
  passed : passedBy s.owner i = φ.isPassed
  released : s.released i = φ.releases

/-- What the phase of a slot depends on has not changed. -/
structure SameSlot (i : Fin n) (s s' : ReusablePool L H n) : Prop where
  mark : s'.states i = s.states i
  holder : ∀ h, slotOf (s'.handles h) = some i ↔ slotOf (s.handles h) = some i
  releasing : ∀ h, s'.handles h = .release i ↔ s.handles h = .release i
  claimed : ∀ h, s'.owner = .claimed i h ↔ s.owner = .claimed i h
  passed : passedBy s'.owner i = passedBy s.owner i
  released : s'.released i = s.released i

theorem PhaseOk.congr (hok : PhaseOk s i φ) (hsame : SameSlot i s s') : PhaseOk s' i φ where
  mark := hsame.mark ▸ hok.mark
  holder := fun h => (hsame.holder h).trans (hok.holder h)
  releasing := fun h => (hsame.releasing h).trans (hok.releasing h)
  claimed := fun h => (hsame.claimed h).trans (hok.claimed h)
  passed := hsame.passed.trans hok.passed
  released := hsame.released.trans hok.released

/-- The slot of a handle before its compare-exchange. -/
theorem PhaseOk.of_swap (hok : PhaseOk s i φ) (hpc : s.handles h = .swap i) :
    φ = .held h ∨ φ = .orphaned h := by
  have hholder := (hok.holder h).mp (by rw [hpc]; rfl)
  cases φ with
  | held h' =>
      cases hholder
      exact Or.inl rfl
  | orphaned h' =>
      cases hholder
      exact Or.inr rfl
  | releasing h' =>
      -- That handle stands behind its compare-exchange.
      cases hholder
      have hrelease := (hok.releasing h).mpr rfl
      rw [hpc] at hrelease
      cases hrelease
  | free | claimed _ | released => cases hholder

/-- A slot that the drop of the pool has not reached, with nobody in `next`. -/
theorem PhaseOk.of_not_passed (hok : PhaseOk s i φ) (hpassed : passedBy s.owner i = false)
    (howner : ∀ h, s.owner ≠ .claimed i h) : φ = .free ∨ ∃ h, φ = .held h := by
  rw [hok.passed] at hpassed
  cases φ with
  | free => exact Or.inl rfl
  | held h => exact Or.inr ⟨h, rfl⟩
  | claimed h => exact absurd ((hok.claimed h).mpr rfl) (howner h)
  | orphaned _ | releasing _ | released => cases hpassed

theorem PhaseOk.of_free (hok : PhaseOk s i φ) (hpassed : passedBy s.owner i = false)
    (howner : ∀ h, s.owner ≠ .claimed i h) (hfree : s.states i = .free) : φ = .free := by
  rcases hok.of_not_passed hpassed howner with hphase | ⟨h, rfl⟩
  · exact hphase
  · cases hfree.symm.trans hok.mark

theorem PhaseOk.of_taken (hok : PhaseOk s i φ) (hpassed : passedBy s.owner i = false)
    (howner : ∀ h, s.owner ≠ .claimed i h) (htaken : s.states i = .taken) : ∃ h, φ = .held h := by
  rcases hok.of_not_passed hpassed howner with rfl | hheld
  · cases htaken.symm.trans hok.mark
  · exact hheld

/-! ### The invariant of the slots -/

structure SlotsOk (s : ReusablePool L H n) : Prop where
  phases : ∀ i, ∃ φ, PhaseOk s i φ
  unborn : ∀ i h, s.owner = .claimed i h → s.handles h = .unborn
  releasable : ∀ i, s.owner = .dropRelease i → s.states i = .free
  owner_ok : s.owner ≠ .failed
  handles_ok : ∀ h i, s.handles h ≠ .failed i

/-- One slot goes to another phase. -/
theorem phases_of_slot (hok : SlotsOk s) (i : Fin n) (φ : SlotPhase H) (hi : PhaseOk s' i φ)
    (hothers : ∀ j, j ≠ i → SameSlot j s s') : ∀ j, ∃ φ, PhaseOk s' j φ := by
  intro j
  by_cases heq : j = i
  · exact ⟨φ, heq ▸ hi⟩
  · obtain ⟨φ', hφ'⟩ := hok.phases j
    exact ⟨φ', hφ'.congr (hothers j heq)⟩

theorem slotsOk_new (kind : PoolKind L) : SlotsOk (.new kind : ReusablePool L H n) where
  phases := fun i => ⟨.free,
    { mark := rfl
      holder := fun h => by simp [ReusablePool.new, slotOf, SlotPhase.holder]
      releasing := fun h => by simp [ReusablePool.new]
      claimed := fun h => by simp [ReusablePool.new]
      passed := rfl
      released := rfl }⟩
  unborn := fun _ _ _ => rfl
  releasable := fun _ _ => rfl
  owner_ok := fun howner => by cases howner
  handles_ok := fun _ _ hpc => by cases hpc

/-- A handle moves that neither had nor gets the slot `j`. -/
theorem slotOf_update [DecidableEq H] (pc : ObjectPc n) (hold : slotOf (s.handles h) ≠ some j)
    (hnew : slotOf pc ≠ some j) (h' : H) :
    (slotOf (Function.update s.handles h pc h') = some j ↔ slotOf (s.handles h') = some j) ∧
      (Function.update s.handles h pc h' = .release j ↔ s.handles h' = .release j) := by
  by_cases heq : h' = h
  · subst heq
    rw [update_self]
    refine ⟨⟨fun hslot => absurd hslot hnew, fun hslot => absurd hslot hold⟩, ?_, ?_⟩
    · rintro rfl
      exact absurd rfl hnew
    · intro hpc
      rw [hpc] at hold
      exact absurd rfl hold
  · rw [update_of_ne heq]
    exact ⟨Iff.rfl, Iff.rfl⟩

/-- A handle moves that does not fail. -/
theorem SlotsOk.handles_update [DecidableEq H] (hok : SlotsOk s) {pc : ObjectPc n}
    (hpc : ∀ i, pc ≠ .failed i) (h' : H) (i : Fin n) :
    Function.update s.handles h pc h' ≠ .failed i := by
  by_cases heq : h' = h
  · subst heq
    rw [update_self]
    exact hpc i
  · rw [update_of_ne heq]
    exact hok.handles_ok h' i

section Owner

/-- Another slot when the owner has moved on. -/
theorem sameSlot_owner (hhandles : s'.handles = s.handles) (hmark : s'.states j = s.states j)
    (hreleased : s'.released j = s.released j) (hclaimed : ∀ h, s.owner ≠ .claimed j h)
    (hclaimed' : ∀ h, s'.owner ≠ .claimed j h)
    (hpassed : passedBy s'.owner j = passedBy s.owner j) :
    SameSlot j s s' where
  mark := hmark
  holder := fun h => by rw [hhandles]
  releasing := fun h => by rw [hhandles]
  claimed := fun h =>
    ⟨fun howner => absurd howner (hclaimed' h), fun howner => absurd howner (hclaimed h)⟩
  passed := hpassed
  released := hreleased

/-- A slot that the drop of the pool passes, in its new phase. -/
theorem PhaseOk.pass {φ' : SlotPhase H} (hok : PhaseOk s i φ) (hhandles : s'.handles = s.handles)
    (hmark : φ'.Marked (s'.states i)) (hholder : φ'.holder = φ.holder)
    (hreleasing : ∀ h, φ ≠ .releasing h ∧ φ' ≠ .releasing h)
    (howner : s'.owner = .dropSwap (i + 1)) (hclaimed : ∀ h, φ' ≠ .claimed h)
    (hpassed : φ'.isPassed = true) (hreleased : s'.released i = φ'.releases) : PhaseOk s' i φ' where
  mark := hmark
  holder := fun h => by rw [hhandles, hholder, hok.holder h]
  releasing := fun h => by
    rw [hhandles, hok.releasing h]
    exact ⟨fun heq => absurd heq (hreleasing h).1, fun heq => absurd heq (hreleasing h).2⟩
  claimed := fun h => by
    rw [howner]
    exact ⟨(fun heq => by cases heq), fun heq => absurd heq (hclaimed h)⟩
  passed := by
    rw [howner, hpassed]
    exact decide_eq_true (Nat.lt_succ_self i)
  released := hreleased

theorem passedBy_succ (hne : j ≠ i) :
    passedBy (.dropSwap (i + 1) : OwnerPc n H) j = decide (j.val < i.val) := by
  refine decide_eq_decide.mpr ?_
  omega

/-- The owner marks a free slot. -/
theorem SlotsOk.take (hok : SlotsOk s) (howner : s.owner = .idle) (hunborn : s.handles h = .unborn)
    (hfree : s.states i = .free) :
    SlotsOk { s.setMark i .taken with owner := .claimed i h } where
  phases := by
    obtain ⟨φ, hφ⟩ := hok.phases i
    have hnone : ∀ h, s.owner ≠ .claimed i h := by
      rw [howner]
      exact fun _ heq => by cases heq
    have hphase := hφ.of_free (by rw [howner]; rfl) hnone hfree
    subst hphase
    -- The slot goes from `free` to `claimed`. No handle has moved.
    refine phases_of_slot hok i (.claimed h) ?_ fun j hj => ?_
    · exact
        { mark := update_self ..
          holder := hφ.holder
          releasing := fun h' => (hφ.releasing h').trans (by simp)
          claimed := fun h' => by simp
          passed := rfl
          released := hφ.released }
    · refine sameSlot_owner rfl (update_of_ne hj ..) rfl ?_ ?_ (by rw [howner]; rfl)
      · rw [howner]
        exact fun _ heq => by cases heq
      · intro h' heq
        cases heq
        exact hj rfl
  unborn := by
    intro i' h' heq
    cases heq
    exact hunborn
  releasable := fun _ heq => by cases heq
  owner_ok := fun heq => by cases heq
  handles_ok := hok.handles_ok

/-- The slot of the owner goes to the handle. -/
theorem SlotsOk.finish [DecidableEq H] (hok : SlotsOk s) (howner : s.owner = .claimed i h) :
    SlotsOk { s.setHandle h (.live i) with owner := .idle } where
  phases := by
    obtain ⟨φ, hφ⟩ := hok.phases i
    have hphase := (hφ.claimed h).mp howner
    subst hphase
    have hunborn := hok.unborn i h howner
    -- The slot goes from `claimed` to `held`. The handle had no slot before.
    refine phases_of_slot hok i (.held h) ?_ fun j hj => ?_
    · refine
        { mark := hφ.mark
          holder := fun h' => ?_
          releasing := fun h' => ?_
          claimed := fun h' => by simp
          passed := rfl
          released := hφ.released }
      · show slotOf (Function.update s.handles h _ h') = some i ↔ some h = some h'
        by_cases heq : h' = h
        · subst heq
          simp [slotOf]
        · rw [update_of_ne heq, hφ.holder h']
          simp [SlotPhase.holder, Ne.symm heq]
      · show Function.update s.handles h _ h' = .release i ↔ _
        by_cases heq : h' = h
        · subst heq
          simp
        · rw [update_of_ne heq, hφ.releasing h']
          simp
    · have hsame := slotOf_update (s := s) (j := j) (h := h) (.live i) (by simp [hunborn, slotOf])
        (by simp [slotOf, Ne.symm hj])
      exact
        { mark := rfl
          holder := fun h' => (hsame h').1
          releasing := fun h' => (hsame h').2
          claimed := fun h' => by simp [howner, Ne.symm hj]
          passed := by rw [howner]; rfl
          released := rfl }
  unborn := fun _ _ heq => by cases heq
  releasable := fun _ heq => by cases heq
  owner_ok := fun heq => by cases heq
  handles_ok := hok.handles_update (by simp)

/-- The owner goes on in the drop of the pool, and no slot is decided. -/
theorem SlotsOk.goto (hok : SlotsOk s) {pc : OwnerPc n H} (hclaimed : ∀ j h, s.owner ≠ .claimed j h)
    (hclaimed' : ∀ j h, pc ≠ .claimed j h) (hpassed : passedBy pc = passedBy s.owner)
    (hfree : ∀ i, pc = .dropRelease i → s.states i = .free) (hpc : pc ≠ .failed) :
    SlotsOk { s with owner := pc } where
  phases := by
    intro j
    obtain ⟨φ, hφ⟩ := hok.phases j
    exact ⟨φ, hφ.congr (sameSlot_owner rfl rfl rfl (hclaimed j) (hclaimed' j) (congrFun hpassed j))⟩
  unborn := fun j h howner => absurd howner (hclaimed' j h)
  releasable := hfree
  owner_ok := hpc
  handles_ok := hok.handles_ok

/-- The drop of the pool leaves a slot to its handle. -/
theorem SlotsOk.leave (hok : SlotsOk s) (howner : s.owner = .dropSwap i)
    (htaken : s.states i = .taken) :
    SlotsOk { s.setMark i .poolGone with owner := .dropSwap (i + 1) } where
  phases := by
    obtain ⟨φ, hφ⟩ := hok.phases i
    have hclaimed : ∀ j h, s.owner ≠ .claimed j h := by simp [howner]
    obtain ⟨h, rfl⟩ := hφ.of_taken (by rw [howner]; simp [passedBy]) (hclaimed i) htaken
    refine phases_of_slot hok i (.orphaned h) ?_ fun j hj => ?_
    · exact hφ.pass rfl (update_self ..) rfl (by simp) rfl (by simp) rfl hφ.released
    · exact sameSlot_owner rfl (update_of_ne hj ..) rfl (hclaimed j) (by simp)
        (by rw [passedBy_succ hj, howner]; rfl)
  unborn := fun _ _ heq => by cases heq
  releasable := fun _ heq => by cases heq
  owner_ok := fun heq => by cases heq
  handles_ok := hok.handles_ok

/-- The drop of the pool releases a free slot. -/
theorem SlotsOk.ownerReleases (hok : SlotsOk s) (howner : s.owner = .dropRelease i) :
    SlotsOk { s with
      released := Function.update s.released i (s.released i + 1)
      owner := .dropSwap (i + 1) } where
  phases := by
    obtain ⟨φ, hφ⟩ := hok.phases i
    have hfree := hok.releasable i howner
    have hclaimed : ∀ j h, s.owner ≠ .claimed j h := by simp [howner]
    have hphase := hφ.of_free (by rw [howner]; simp [passedBy]) (hclaimed i) hfree
    subst hphase
    refine phases_of_slot hok i .released ?_ fun j hj => ?_
    · refine hφ.pass rfl ?_ rfl (by simp) rfl (by simp) rfl ?_
      · show s.states i ≠ .taken
        rw [hfree]
        exact fun heq => by cases heq
      · show Function.update s.released i _ i = 1
        rw [update_self, hφ.released]
        rfl
    · exact sameSlot_owner rfl rfl (update_of_ne hj ..) (hclaimed j) (by simp)
        (by rw [passedBy_succ hj, howner]; rfl)
  unborn := fun _ _ heq => by cases heq
  releasable := fun _ heq => by cases heq
  owner_ok := fun heq => by cases heq
  handles_ok := hok.handles_ok

end Owner

section Handle

variable [DecidableEq H] {pc : ObjectPc n}

/-- Another slot when a handle of the slot `i` has moved on. -/
theorem sameSlot_handle (hhandles : s'.handles = Function.update s.handles h pc)
    (hslot : slotOf (s.handles h) = some i) (hslot' : slotOf pc = some i ∨ slotOf pc = none)
    (hj : j ≠ i) (hmark : s'.states j = s.states j) (hreleased : s'.released j = s.released j)
    (howner : s'.owner = s.owner) : SameSlot j s s' := by
  have hne : slotOf (s.handles h) ≠ some j := by
    rw [hslot]
    exact fun heq => hj (Option.some.inj heq).symm
  have hne' : slotOf pc ≠ some j := by
    rcases hslot' with hslot' | hslot' <;> rw [hslot'] <;> intro heq
    · exact hj (Option.some.inj heq).symm
    · cases heq
  have hsame := slotOf_update pc hne hne'
  exact
    { mark := hmark
      holder := fun h' => by rw [hhandles]; exact (hsame h').1
      releasing := fun h' => by rw [hhandles]; exact (hsame h').2
      claimed := fun h' => by rw [howner]
      passed := by rw [howner]
      released := hreleased }

/-- The slot of a handle that has moved on, in its new phase. -/
theorem PhaseOk.move {φ' : SlotPhase H} (hok : PhaseOk s i φ) (hholds : φ.holder = some h)
    (hhandles : s'.handles = Function.update s.handles h pc) (hmark : φ'.Marked (s'.states i))
    (hslot : slotOf pc = some i ↔ φ'.holder = some h) (hothers : ∀ h', h' ≠ h → φ'.holder ≠ some h')
    (hreleasing : pc = .release i ↔ φ' = .releasing h) (hclaimed : ∀ h, φ' ≠ .claimed h)
    (howner : s'.owner = s.owner) (hpassed : φ'.isPassed = φ.isPassed)
    (hreleased : s'.released i = φ'.releases) : PhaseOk s' i φ' := by
  -- The phase has one holder, so no other handle has the slot.
  have hnot : ∀ h', h' ≠ h → slotOf (s.handles h') ≠ some i := by
    intro h' hne hslot'
    have heq := (hok.holder h').mp hslot'
    rw [hholds] at heq
    exact hne (Option.some.inj heq).symm
  refine
    { mark := hmark
      holder := fun h' => ?_
      releasing := fun h' => ?_
      claimed := fun h' => ?_
      passed := by rw [howner, hok.passed, hpassed]
      released := hreleased }
  · rw [hhandles]
    by_cases heq : h' = h
    · subst heq
      rw [update_self]
      exact hslot
    · rw [update_of_ne heq]
      exact ⟨fun hs => absurd hs (hnot h' heq), fun hs => absurd hs (hothers h' heq)⟩
  · rw [hhandles]
    by_cases heq : h' = h
    · subst heq
      rw [update_self]
      exact hreleasing
    · rw [update_of_ne heq]
      refine ⟨fun hpc => absurd (by rw [hpc]; rfl) (hnot h' heq), fun hφ' => ?_⟩
      subst hφ'
      exact absurd rfl (hothers h' heq)
  · rw [howner, hok.claimed h']
    refine ⟨fun hφ => ?_, fun hφ' => absurd hφ' (hclaimed h')⟩
    subst hφ
    cases hholds

/-- A handle of the slot `i` has moved on. -/
theorem SlotsOk.handleStep (hok : SlotsOk s) (φ' : SlotPhase H)
    (hhandles : s'.handles = Function.update s.handles h pc)
    (hslot : slotOf (s.handles h) = some i) (hslot' : slotOf pc = some i ∨ slotOf pc = none)
    (hpc : ∀ i, pc ≠ .failed i) (howner : s'.owner = s.owner)
    (hmark : ∀ j, j ≠ i → s'.states j = s.states j)
    (hfree : s.states i = .free → s'.states i = .free)
    (hreleased : ∀ j, j ≠ i → s'.released j = s.released j) (hi : PhaseOk s' i φ') :
    SlotsOk s' where
  phases := phases_of_slot hok i φ' hi fun j hj =>
    sameSlot_handle hhandles hslot hslot' hj (hmark j hj) (hreleased j hj) howner
  unborn := by
    intro j h' hclaimed
    rw [howner] at hclaimed
    have hunborn := hok.unborn j h' hclaimed
    have hne : h' ≠ h := by
      rintro rfl
      rw [hunborn] at hslot
      cases hslot
    rw [hhandles, update_of_ne hne]
    exact hunborn
  releasable := by
    intro j hrelease
    rw [howner] at hrelease
    have hj := hok.releasable j hrelease
    by_cases heq : j = i
    · subst heq
      exact hfree hj
    · rw [hmark j heq]
      exact hj
  owner_ok := by
    rw [howner]
    exact hok.owner_ok
  handles_ok := by
    rw [hhandles]
    exact hok.handles_update hpc

/-- A handle goes on in its drop and keeps its slot. -/
theorem SlotsOk.stay (hok : SlotsOk s) (hslot : slotOf (s.handles h) = some i)
    (hnot : s.handles h ≠ .release i) (hslot' : slotOf pc = some i) (hnot' : pc ≠ .release i) :
    SlotsOk (s.setHandle h pc) := by
  obtain ⟨φ, hφ⟩ := hok.phases i
  have hholds := (hφ.holder h).mp hslot
  refine hok.handleStep φ rfl hslot (Or.inl hslot') ?_ rfl (fun _ _ => rfl) id (fun _ _ => rfl)
    (hφ.move hholds rfl hφ.mark ⟨fun _ => hholds, fun _ => hslot'⟩ ?_ ?_ ?_ rfl rfl hφ.released)
  · rintro j rfl
    cases hslot'
  · intro h' hne heq
    rw [hholds] at heq
    exact hne (Option.some.inj heq).symm
  · exact ⟨fun hpc => absurd hpc hnot', fun hrel => absurd ((hφ.releasing h).mpr hrel) hnot⟩
  · rintro h' rfl
    cases hholds

/-- A handle gives its slot back to the pool. -/
theorem SlotsOk.giveBack (hok : SlotsOk s) (hpc : s.handles h = .swap i)
    (htaken : s.states i = .taken) : SlotsOk ((s.setMark i .free).setHandle h (.gone i)) := by
  obtain ⟨φ, hφ⟩ := hok.phases i
  have hphase : φ = .held h := by
    rcases hφ.of_swap hpc with rfl | rfl
    · rfl
    · cases htaken.symm.trans hφ.mark
  subst hphase
  refine hok.handleStep .free rfl (by rw [hpc]; rfl) (Or.inr rfl) (by simp) rfl
    (fun j hj => update_of_ne hj ..) (fun _ => update_self ..) (fun _ _ => rfl) ?_
  exact hφ.move rfl rfl (update_self ..) (by simp [slotOf, SlotPhase.holder])
    (by simp [SlotPhase.holder]) (by simp) (by simp) rfl rfl hφ.released

/-- A handle finds that the pool is gone. -/
theorem SlotsOk.inherit (hok : SlotsOk s) (hpc : s.handles h = .swap i)
    (hgone : s.states i = .poolGone) : SlotsOk (s.setHandle h (.release i)) := by
  obtain ⟨φ, hφ⟩ := hok.phases i
  have hphase : φ = .orphaned h := by
    rcases hφ.of_swap hpc with rfl | rfl
    · cases hgone.symm.trans hφ.mark
    · rfl
  subst hphase
  refine hok.handleStep (.releasing h) rfl (by rw [hpc]; rfl) (Or.inl rfl) (by simp) rfl
    (fun _ _ => rfl) id (fun _ _ => rfl) ?_
  exact hφ.move rfl rfl hgone (by simp [slotOf, SlotPhase.holder])
    (fun h' hne heq => hne (Option.some.inj heq).symm) (by simp) (by simp) rfl rfl hφ.released

/-- A handle releases the memory of its slot. -/
theorem SlotsOk.handleReleases (hok : SlotsOk s) (hpc : s.handles h = .release i) :
    SlotsOk ({ s with released := Function.update s.released i (s.released i + 1) }.setHandle h
      (.gone i)) := by
  obtain ⟨φ, hφ⟩ := hok.phases i
  have hphase := (hφ.releasing h).mp hpc
  subst hphase
  have hgone : s.states i = .poolGone := hφ.mark
  refine hok.handleStep .released rfl (by rw [hpc]; rfl) (Or.inr rfl) (by simp) rfl
    (fun _ _ => rfl) id (fun j hj => update_of_ne hj ..) ?_
  refine hφ.move rfl rfl ?_ (by simp [slotOf, SlotPhase.holder]) (by simp [SlotPhase.holder])
    (by simp) (by simp) rfl rfl ?_
  · show s.states i ≠ .taken
    rw [hgone]
    exact fun heq => by cases heq
  · show Function.update s.released i _ i = 1
    rw [update_self, hφ.released]
    rfl

end Handle

end Phases

/-! ### The memory -/

/-- At most the values have changed. -/
structure OnlyValues (s s' : ReusablePool L H n) : Prop where
  kind : s'.kind = s.kind
  states : s'.states = s.states
  position : s'.position = s.position
  owner : s'.owner = s.owner
  handles : s'.handles = s.handles
  released : s'.released = s.released
  answers : s'.answers = s.answers

theorem fillSlot_onlyValues (s : ReusablePool L H n) (i : Fin n) : OnlyValues s (s.fillSlot i) := by
  unfold ReusablePool.fillSlot
  split <;> constructor <;> rfl

theorem clearSlot_onlyValues (s : ReusablePool L H n) (i : Fin n) :
    OnlyValues s (s.clearSlot i) := by
  unfold ReusablePool.clearSlot
  split <;> constructor <;> rfl

theorem releaseSlot_onlyValues (s : ReusablePool L H n) (i : Fin n) :
    OnlyValues { s with released := Function.update s.released i (s.released i + 1) }
      (s.releaseSlot i) := by
  unfold ReusablePool.releaseSlot
  split <;> constructor <;> rfl

theorem SlotsOk.congr {s s' : ReusablePool L H n} (hok : SlotsOk s) (hstates : s'.states = s.states)
    (howner : s'.owner = s.owner) (hhandles : s'.handles = s.handles)
    (hreleased : s'.released = s.released) : SlotsOk s' := by
  refine
    { phases := fun i => ?_
      unborn := by rw [howner, hhandles]; exact hok.unborn
      releasable := by rw [howner, hstates]; exact hok.releasable
      owner_ok := by rw [howner]; exact hok.owner_ok
      handles_ok := by rw [hhandles]; exact hok.handles_ok }
  obtain ⟨φ, hφ⟩ := hok.phases i
  refine ⟨φ, hφ.congr ?_⟩
  exact
    { mark := by rw [hstates]
      holder := fun h => by rw [hhandles]
      releasing := fun h => by rw [hhandles]
      claimed := fun h => by rw [howner]
      passed := by rw [howner]
      released := by rw [hreleased] }

/-! ### The values in the slots -/

section Values

variable {s s' : ReusablePool L H n}

variable {h : H} {i : Fin n} {memLayout : L}

theorem SlotsOk.released_of_holder (hok : SlotsOk s) (hslot : slotOf (s.handles h) = some i) :
    s.released i = 0 := by
  obtain ⟨φ, hφ⟩ := hok.phases i
  have hholder := (hφ.holder h).mp hslot
  rw [hφ.released]
  cases φ with
  | released => cases hholder
  | _ => rfl

theorem SlotsOk.released_of_owner (hok : SlotsOk s) (howner : s.owner = .dropRelease i) :
    s.released i = 0 := by
  obtain ⟨φ, hφ⟩ := hok.phases i
  have hphase := hφ.of_free (by rw [howner]; simp [passedBy]) (by simp [howner])
    (hok.releasable i howner)
  subst hphase
  exact hφ.released

theorem SlotsOk.holder_unique (hok : SlotsOk s) {h' : H} (hslot : slotOf (s.handles h) = some i)
    (hslot' : slotOf (s.handles h') = some i) : h = h' := by
  obtain ⟨φ, hφ⟩ := hok.phases i
  have hholder := (hφ.holder h).mp hslot
  rw [(hφ.holder h').mp hslot'] at hholder
  exact (Option.some.inj hholder).symm

/-- The memory is released once, when the drop of the pool is past the slot and no handle has it. -/
theorem SlotsOk.released_iff (hok : SlotsOk s) (i : Fin n) :
    s.released i ≤ 1 ∧
      (s.released i = 1 ↔ passedBy s.owner i = true ∧ ∀ h, slotOf (s.handles h) ≠ some i) := by
  obtain ⟨φ, hφ⟩ := hok.phases i
  rw [hφ.released, hφ.passed]
  cases φ with
  | free | claimed h =>
      -- The drop of the pool has not reached the slot.
      refine ⟨Nat.zero_le 1, (fun hone => by cases hone), ?_⟩
      rintro ⟨hpassed, -⟩
      cases hpassed
  | held h | orphaned h | releasing h =>
      -- A handle has the slot.
      refine ⟨Nat.zero_le 1, (fun hone => by cases hone), ?_⟩
      rintro ⟨-, hnobody⟩
      exact absurd ((hφ.holder h).mpr rfl) (hnobody h)
  | released =>
      refine ⟨Nat.le_refl 1, fun _ => ⟨rfl, fun h hslot => ?_⟩, fun _ => rfl⟩
      cases (hφ.holder h).mp hslot

/-- The slot whose value the handle still uses. -/
def usedBy : ObjectPc n → Option (Fin n)
  | .live slot | .clearing slot => some slot
  | _ => none

theorem slotOf_of_usedBy {pc : ObjectPc n} (h : usedBy pc = some i) : slotOf pc = some i := by
  cases pc with
  | live slot | clearing slot => exact h
  | _ => cases h

/-- There is to be a value in the slot: of an object until it is released, of a future as long as a
handle uses it. -/
def HasValue (s : ReusablePool L H n) (i : Fin n) : Prop :=
  match s.kind with
  | .objects => s.released i = 0
  | .futures _ => ∃ h, usedBy (s.handles h) = some i

structure ValuesOk (s : ReusablePool L H n) : Prop where
  full : ∀ i, s.full i = true ↔ HasValue s i
  misused : s.misused = false

theorem hasValue_objects (hkind : s.kind = .objects) (i : Fin n) :
    HasValue s i ↔ s.released i = 0 := by
  unfold HasValue
  rw [hkind]

theorem hasValue_futures (hkind : s.kind = .futures memLayout) (i : Fin n) :
    HasValue s i ↔ ∃ h, usedBy (s.handles h) = some i := by
  unfold HasValue
  rw [hkind]

theorem hasValue_congr (hkind : s'.kind = s.kind) (hreleased : s'.released = s.released)
    (hused : ∀ h, usedBy (s'.handles h) = usedBy (s.handles h)) (i : Fin n) :
    HasValue s' i ↔ HasValue s i := by
  unfold HasValue
  rw [hkind, hreleased]
  cases s.kind with
  | objects => exact Iff.rfl
  | futures memLayout =>
      simp only [hused]

/-- A step that leaves the values and those who use them alone. -/
theorem ValuesOk.congr (hok : ValuesOk s) (hkind : s'.kind = s.kind)
    (hreleased : s'.released = s.released) (hfull : s'.full = s.full)
    (hmisused : s'.misused = s.misused)
    (hused : ∀ h, usedBy (s'.handles h) = usedBy (s.handles h)) : ValuesOk s' where
  full := fun i => by rw [hfull, hok.full i, hasValue_congr hkind hreleased hused i]
  misused := hmisused.trans hok.misused

theorem ValuesOk.full_objects (hok : ValuesOk s) (hkind : s.kind = .objects) (i : Fin n) :
    s.full i = true ↔ s.released i = 0 :=
  (hok.full i).trans (hasValue_objects hkind i)

theorem ValuesOk.full_futures (hok : ValuesOk s) (hkind : s.kind = .futures memLayout) (i : Fin n) :
    s.full i = true ↔ ∃ h, usedBy (s.handles h) = some i :=
  (hok.full i).trans (hasValue_futures hkind i)

theorem ValuesOk.of_objects (hkind : s.kind = .objects)
    (hfull : ∀ i, s.full i = true ↔ s.released i = 0) (hmisused : s.misused = false) :
    ValuesOk s :=
  ⟨fun i => (hfull i).trans (hasValue_objects hkind i).symm, hmisused⟩

theorem ValuesOk.of_futures (hkind : s.kind = .futures memLayout)
    (hfull : ∀ i, s.full i = true ↔ ∃ h, usedBy (s.handles h) = some i)
    (hmisused : s.misused = false) : ValuesOk s :=
  ⟨fun i => (hfull i).trans (hasValue_futures hkind i).symm, hmisused⟩

theorem valuesOk_new (kind : PoolKind L) : ValuesOk (.new kind : ReusablePool L H n) := by
  cases kind with
  | objects => exact .of_objects rfl (fun i => ⟨fun _ => rfl, fun _ => rfl⟩) rfl
  | futures memLayout =>
      refine .of_futures rfl (fun i => ⟨fun hfull => ?_, ?_⟩) rfl
      · cases hfull
      · rintro ⟨h, hused⟩
        cases hused

/-- The memory of a slot is released for the first time. -/
theorem ValuesOk.releaseSlot (hok : ValuesOk s) (hreleased : s.released i = 0) :
    ValuesOk (s.releaseSlot i) := by
  unfold ReusablePool.releaseSlot
  -- A pool of futures drops no value here. Its handles have done so.
  cases hkind : s.kind with
  | objects =>
      have hfull : s.full i = true := (hok.full_objects hkind i).mpr hreleased
      refine .of_objects hkind (fun j => ?_) ?_
      · show Function.update s.full i false j = true ↔
          Function.update s.released i (s.released i + 1) j = 0
        by_cases hj : j = i
        · subst hj
          rw [update_self, update_self]
          refine ⟨(fun hfalse => by cases hfalse), fun hzero => ?_⟩
          exact absurd hzero (Nat.succ_ne_zero _)
        · rw [update_of_ne hj, update_of_ne hj, hok.full_objects hkind j]
      · show (s.misused || !s.full i) = false
        rw [hok.misused, hfull]
        rfl
  | futures memLayout => exact .of_futures hkind (hok.full_futures hkind) hok.misused

variable [DecidableEq H]

theorem usedBy_update {pc : ObjectPc n} (hpc : usedBy pc = usedBy (s.handles h)) (h' : H) :
    usedBy (Function.update s.handles h pc h') = usedBy (s.handles h') := by
  by_cases heq : h' = h
  · subst heq
    rw [update_self, hpc]
  · rw [update_of_ne heq]

/-- The values of a pool of futures when one handle begins or ends to use its slot. -/
theorem ValuesOk.full_update (hok : ValuesOk s) (pc : ObjectPc n)
    (hkind : s.kind = .futures memLayout) (hold : ∀ j, usedBy (s.handles h) = some j → j = i)
    (hnew : ∀ j, usedBy pc = some j → j = i)
    (halone : ∀ h', usedBy (s.handles h') = some i → h' = h) (j : Fin n) :
    Function.update s.full i (usedBy pc).isSome j = true ↔
      ∃ h', usedBy (Function.update s.handles h pc h') = some j := by
  by_cases hj : j = i
  · subst hj
    rw [update_self]
    constructor
    · intro hsome
      obtain ⟨k, hk⟩ := Option.isSome_iff_exists.mp hsome
      cases hnew k hk
      exact ⟨h, by rw [update_self, hk]⟩
    · rintro ⟨h', hused⟩
      by_cases heq : h' = h
      · subst heq
        rw [update_self] at hused
        rw [hused]
        rfl
      · rw [update_of_ne heq] at hused
        exact absurd (halone h' hused) heq
  · rw [update_of_ne hj, hok.full_futures hkind j]
    refine exists_congr fun h' => ?_
    by_cases heq : h' = h
    · subst heq
      rw [update_self]
      exact ⟨fun hused => absurd (hold j hused) hj, fun hused => absurd (hnew j hused) hj⟩
    · rw [update_of_ne heq]

/-- The slot has its value when the handle gets it. -/
theorem ValuesOk.finish (hok : ValuesOk s) (hslots : SlotsOk s) (howner : s.owner = .claimed i h) :
    ValuesOk (s.finishNext i h) := by
  obtain ⟨φ, hφ⟩ := hslots.phases i
  have hphase := (hφ.claimed h).mp howner
  subst hphase
  have hunborn := hslots.unborn i h howner
  cases hkind : s.kind with
  | objects =>
      have hfill : s.fillSlot i = s := by
        unfold ReusablePool.fillSlot
        rw [hkind]
      unfold ReusablePool.finishNext
      rw [hfill]
      exact .of_objects hkind (hok.full_objects hkind) hok.misused
  | futures memLayout =>
      have hfill : s.fillSlot i = s.writeValue i := by
        unfold ReusablePool.fillSlot
        rw [hkind]
      unfold ReusablePool.finishNext
      rw [hfill]
      -- No handle has a slot that is claimed, so there is no future to overwrite.
      have hnobody : ∀ h', usedBy (s.handles h') ≠ some i := by
        intro h' hused
        cases (hφ.holder h').mp (slotOf_of_usedBy hused)
      have hempty : s.full i = false := by
        refine Bool.eq_false_iff.mpr fun htrue => ?_
        obtain ⟨h', hused⟩ := (hok.full_futures hkind i).mp htrue
        exact hnobody h' hused
      refine .of_futures hkind ?_ ?_
      · refine hok.full_update (h := h) (.live i) hkind ?_ ?_ ?_
        · intro j hused
          rw [hunborn] at hused
          cases hused
        · exact fun j hused => (Option.some.inj hused).symm
        · exact fun h' hused => absurd hused (hnobody h')
      · show (s.misused || s.full i) = false
        rw [hok.misused, hempty]
        rfl

/-- A handle clears only the value of its own slot. -/
theorem ValuesOk.clear (hok : ValuesOk s) (hslots : SlotsOk s) (hpc : s.handles h = .clearing i) :
    ValuesOk ((s.clearSlot i).setHandle h (.swap i)) := by
  have hslot : slotOf (s.handles h) = some i := by
    rw [hpc]
    rfl
  have hused : usedBy (s.handles h) = some i := by
    rw [hpc]
    rfl
  cases hkind : s.kind with
  | objects =>
      have hclear : s.clearSlot i = s.useValue i := by
        unfold ReusablePool.clearSlot
        rw [hkind]
      -- `reusable_clear` finds a value, as the slot has a handle and is not released.
      have hfull : s.full i = true :=
        (hok.full_objects hkind i).mpr (hslots.released_of_holder hslot)
      rw [hclear]
      refine .of_objects hkind (hok.full_objects hkind) ?_
      show (s.misused || !s.full i) = false
      rw [hok.misused, hfull]
      rfl
  | futures memLayout =>
      have hclear : s.clearSlot i = s.dropValue i := by
        unfold ReusablePool.clearSlot
        rw [hkind]
      -- The future is there, and no other handle uses it after the drop.
      have hfull : s.full i = true := (hok.full_futures hkind i).mpr ⟨h, hused⟩
      rw [hclear]
      refine .of_futures hkind ?_ ?_
      · refine hok.full_update (h := h) (.swap i) hkind ?_ ?_ ?_
        · intro j hj
          rw [hused] at hj
          exact (Option.some.inj hj).symm
        · exact fun j hj => by cases hj
        · exact fun h' hused' => hslots.holder_unique (slotOf_of_usedBy hused') hslot
      · show (s.misused || !s.full i) = false
        rw [hok.misused, hfull]
        rfl

end Values

/-! ### The calls of `next` -/

section Next

variable {s s' : ReusablePool L H n}

def isOk : NextAnswer H → Bool
  | .ok _ => true
  | .error _ => false

/-- The position is the number of the calls of `next` that have succeeded. -/
def PositionOk (s : ReusablePool L H n) : Prop :=
  s.position = UInt64.ofNat (s.answers.countP isOk)

theorem PositionOk.congr (hok : PositionOk s) (hposition : s'.position = s.position)
    (hanswers : s'.answers = s.answers) : PositionOk s' := by
  unfold PositionOk
  rw [hposition, hanswers]
  exact hok

/-- Between two calls a slot is free, or taken for the handle that has it. -/
theorem SlotsOk.of_idle (hok : SlotsOk s) (howner : s.owner = .idle) (i : Fin n) :
    PhaseOk s i .free ∨ ∃ h, PhaseOk s i (.held h) := by
  obtain ⟨φ, hφ⟩ := hok.phases i
  rcases hφ.of_not_passed (by rw [howner]; rfl) (by simp [howner]) with rfl | ⟨h, rfl⟩
  · exact Or.inl hφ
  · exact Or.inr ⟨h, hφ⟩

theorem SlotsOk.taken_iff (hok : SlotsOk s) (howner : s.owner = .idle) (i : Fin n) :
    s.states i = .taken ↔ ∃ h, slotOf (s.handles h) = some i := by
  rcases hok.of_idle howner i with hfree | ⟨h, hheld⟩
  · constructor
    · intro htaken
      cases htaken.symm.trans hfree.mark
    · rintro ⟨h, hslot⟩
      cases (hfree.holder h).mp hslot
  · exact ⟨fun _ => ⟨h, (hheld.holder h).mpr rfl⟩, fun _ => hheld.mark⟩

/-- The exchange fails exactly when the slot is taken. -/
theorem SlotsOk.takeNext_eq [NeZero n] (hok : SlotsOk s) (howner : s.owner = .idle) (h : H) :
    s.takeNext h =
      if s.states s.index = .taken then s.answer (.error .noData)
      else { s.setMark s.index .taken with owner := .claimed s.index h } := by
  unfold ReusablePool.takeNext
  rcases hok.of_idle howner s.index with hfree | ⟨h', hheld⟩
  · have hmark : s.states s.index = .free := hfree.mark
    rw [hmark, if_pos rfl, if_neg (fun hmark => by cases hmark)]
  · have hmark : s.states s.index = .taken := hheld.mark
    rw [hmark, if_pos rfl, if_neg (fun hmark => by cases hmark)]

variable [DecidableEq H]

theorem PositionOk.finish (hok : PositionOk s) (i : Fin n) (h : H) :
    PositionOk (s.finishNext i h) := by
  have hvalues := fillSlot_onlyValues s i
  show (s.fillSlot i).position + 1 =
    UInt64.ofNat (((s.fillSlot i).answers ++ [NextAnswer.ok h]).countP isOk)
  rw [hvalues.position, hvalues.answers, List.countP_append, UInt64.ofNat_add, hok]
  rfl

theorem finishNext_effect (s : ReusablePool L H n) (i : Fin n) (h : H) :
    (s.finishNext i h).owner = .idle ∧ (s.finishNext i h).handles h = .live i ∧
      (s.finishNext i h).position = s.position + 1 := by
  have hvalues := fillSlot_onlyValues s i
  refine ⟨rfl, update_self .., ?_⟩
  show (s.fillSlot i).position + 1 = _
  rw [hvalues.position]

/-- The call of `next`, with a future of the layout of the pool. -/
def nextCall : PoolKind L → H → PoolAction L H
  | .objects, h => .nextObject h
  | .futures memLayout, h => .next h memLayout

theorem step_nextCall [DecidableEq L] [NeZero n] {h : H} (howner : s.owner = .idle)
    (hunborn : s.handles h = .unborn) : s.step (nextCall s.kind h) = some (s.takeNext h) := by
  cases hkind : s.kind with
  | objects => simp only [nextCall, ReusablePool.step, hkind, howner, hunborn]
  | futures memLayout =>
      simp only [nextCall, ReusablePool.step, hkind, howner, hunborn, if_pos]

end Next

/-! ### Runs -/

section Runs

variable [DecidableEq H] [NeZero n] {s s' : ReusablePool L H n}

/-- Every step keeps `SlotsOk`, one case for each kind of step. -/
theorem SlotsOk.step (hok : SlotsOk s) (hstep : PoolStep s s') : SlotsOk s' := by
  cases hstep with
  | refuse e howner => exact hok.congr rfl rfl rfl rfl
  | take h howner hunborn hfree => exact hok.take howner hunborn hfree
  | finish slot h howner =>
      have hvalues := fillSlot_onlyValues s slot
      refine (hok.finish howner).congr hvalues.states rfl ?_ hvalues.released
      show Function.update (s.fillSlot slot).handles h _ = _
      rw [hvalues.handles]
      rfl
  | dropPool howner =>
      refine hok.goto (by simp [howner]) (by simp) ?_ (by simp) (by simp)
      rw [howner]
      funext j
      simp [passedBy]
  | leave slot howner htaken => exact hok.leave howner htaken
  | keep slot howner hfree =>
      refine hok.goto (by simp [howner]) (by simp) (by rw [howner]; rfl) ?_ (by simp)
      intro i heq
      cases heq
      exact hfree
  | ownerFails slot howner hgone =>
      -- A slot that the drop has not reached is not marked as gone.
      obtain ⟨φ, hφ⟩ := hok.phases slot
      have hpassed : passedBy s.owner slot = false := by
        rw [howner]
        simp [passedBy]
      rcases hφ.of_not_passed hpassed (by simp [howner]) with rfl | ⟨h, rfl⟩
      · cases hgone.symm.trans hφ.mark
      · cases hgone.symm.trans hφ.mark
  | ownerReleases slot howner =>
      have hvalues := releaseSlot_onlyValues s slot
      exact (hok.ownerReleases howner).congr hvalues.states rfl hvalues.handles hvalues.released
  | dropEnds i howner hi =>
      refine hok.goto (by simp [howner]) (by simp) ?_ (by simp) (by simp)
      rw [howner]
      funext j
      exact (decide_eq_true (Nat.lt_of_lt_of_le j.isLt hi)).symm
  | drop h slot hpc => exact hok.stay (by rw [hpc]; rfl) (by simp [hpc]) rfl (by simp)
  | clear h slot hpc =>
      have hvalues := clearSlot_onlyValues s slot
      have hstay : SlotsOk (s.setHandle h (.swap slot)) :=
        hok.stay (i := slot) (by rw [hpc]; rfl) (by simp [hpc]) rfl (by simp)
      refine hstay.congr hvalues.states hvalues.owner ?_ hvalues.released
      show Function.update (s.clearSlot slot).handles h _ = _
      rw [hvalues.handles]
      rfl
  | giveBack h slot hpc htaken => exact hok.giveBack hpc htaken
  | inherit h slot hpc hgone => exact hok.inherit hpc hgone
  | handleFails h slot hpc hfree =>
      -- A handle before its compare-exchange has its slot taken, or the pool is gone.
      obtain ⟨φ, hφ⟩ := hok.phases slot
      rcases hφ.of_swap hpc with rfl | rfl
      · cases hfree.symm.trans hφ.mark
      · cases hfree.symm.trans hφ.mark
  | handleReleases h slot hpc =>
      have hvalues := releaseSlot_onlyValues s slot
      refine (hok.handleReleases hpc).congr hvalues.states hvalues.owner ?_ hvalues.released
      show Function.update (s.releaseSlot slot).handles h _ = _
      rw [hvalues.handles]
      rfl

theorem ValuesOk.step (hok : ValuesOk s) (hslots : SlotsOk s) (hstep : PoolStep s s') :
    ValuesOk s' := by
  cases hstep with
  | refuse e howner => exact hok.congr rfl rfl rfl rfl fun _ => rfl
  | take h howner hunborn hfree => exact hok.congr rfl rfl rfl rfl fun _ => rfl
  | finish slot h howner => exact hok.finish hslots howner
  | dropPool howner => exact hok.congr rfl rfl rfl rfl fun _ => rfl
  | leave slot howner htaken => exact hok.congr rfl rfl rfl rfl fun _ => rfl
  | keep slot howner hfree => exact hok.congr rfl rfl rfl rfl fun _ => rfl
  | ownerFails slot howner hgone => exact hok.congr rfl rfl rfl rfl fun _ => rfl
  | ownerReleases slot howner =>
      have hreleased := hok.releaseSlot (hslots.released_of_owner howner)
      exact hreleased.congr rfl rfl rfl rfl fun _ => rfl
  | dropEnds i howner hi => exact hok.congr rfl rfl rfl rfl fun _ => rfl
  | drop h slot hpc =>
      exact hok.congr rfl rfl rfl rfl (usedBy_update (by rw [hpc]; rfl))
  | clear h slot hpc => exact hok.clear hslots hpc
  | giveBack h slot hpc htaken =>
      exact hok.congr rfl rfl rfl rfl (usedBy_update (s := s) (by rw [hpc]; rfl))
  | inherit h slot hpc hgone =>
      exact hok.congr rfl rfl rfl rfl (usedBy_update (by rw [hpc]; rfl))
  | handleFails h slot hpc hfree =>
      exact hok.congr rfl rfl rfl rfl (usedBy_update (by rw [hpc]; rfl))
  | handleReleases h slot hpc =>
      have hzero := hslots.released_of_holder (h := h) (i := slot) (by rw [hpc]; rfl)
      have hhandles := (releaseSlot_onlyValues s slot).handles
      refine (hok.releaseSlot hzero).congr rfl rfl rfl rfl (usedBy_update ?_)
      rw [hhandles]
      show _ = usedBy (s.handles h)
      rw [hpc]
      rfl

/-- Only a handle that is handed out moves the position. -/
theorem PositionOk.step (hok : PositionOk s) (hstep : PoolStep s s') : PositionOk s' := by
  cases hstep with
  | refuse e howner =>
      show s.position = UInt64.ofNat ((s.answers ++ [NextAnswer.error e]).countP isOk)
      rw [List.countP_append]
      exact hok
  | finish slot h howner => exact hok.finish slot h
  | ownerReleases slot howner =>
      have hvalues := releaseSlot_onlyValues s slot
      exact hok.congr hvalues.position hvalues.answers
  | clear h slot hpc =>
      have hvalues := clearSlot_onlyValues s slot
      exact hok.congr hvalues.position hvalues.answers
  | handleReleases h slot hpc =>
      have hvalues := releaseSlot_onlyValues s slot
      exact hok.congr hvalues.position hvalues.answers
  | _ => exact hok.congr rfl rfl

structure PoolOk (s : ReusablePool L H n) : Prop where
  slots : SlotsOk s
  values : ValuesOk s
  position : PositionOk s

theorem poolOk_of_reaches [DecidableEq L] {kind : PoolKind L}
    (hrun : Reaches ReusablePool.step anyStep (.new kind) s) : PoolOk s := by
  refine hrun.invariant (I := PoolOk) ⟨slotsOk_new kind, valuesOk_new kind, rfl⟩ ?_
  intro s a s' hok _ hstep
  have hcases := poolStep_cases hstep
  exact ⟨hok.slots.step hcases, hok.values.step hok.slots hcases, hok.position.step hcases⟩

end Runs

end Kyron.Proofs.Containers
