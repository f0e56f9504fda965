import Mathlib.Algebra.BigOperators.Group.Finset.Sigma
import Mathlib.Data.Fintype.Basic
import Kyron.Proofs.Containers.SpmcSteps

/-!
# `Kyron.Proofs.Containers.SpmcSystem`: stealing neither loses nor duplicates items

The guarantees over whole runs. A value that was pushed is in one place: among the live items
of a queue, in the in-flight part of one thread, in the `MpmcQueue`, or handed out by a pop.

* `pushed_values_kept`: without `fetch_from`, in every state of every run in which no tail goes
  round between a stealer's load and its exchange.
* `fetch_spares_stolen`: with `fetch_from`, in every run in which it finds no steal in progress
  or no more items than fit. Then it writes no slot between `steal` and `head`.
* `fetch_overwrites_stolen`: a run in which it overwrites a slot that a stealer has claimed.
-/

set_option autoImplicit false

namespace Kyron.Proofs.Containers

open Kyron.Containers
open Kyron.Lib
open scoped BigOperators
open SpmcSystem

variable {Q V : Type} [DecidableEq Q] [Fintype Q]
variable {s s' : SpmcSystem Q V}

/-! ### The start -/

theorem new_ok (sizes : Q → UInt32) (hsizes : ∀ q, ∃ k < 32, (sizes q).toNat = 2 ^ k)
    (mpmcCapacity : Nat) :
    SystemOk (SpmcSystem.new sizes hsizes mpmcCapacity : SpmcSystem Q V) := by
  have hzero : stealOf 0 = realOf 0 := by decide
  have hstolen : ∀ x,
      stolen ((SpmcSystem.new sizes hsizes mpmcCapacity : SpmcSystem Q V).queues x) = 0 := by
    intro x
    exact stolen_eq_zero.mpr hzero
  have hlive : ∀ x, live ((SpmcSystem.new sizes hsizes mpmcCapacity : SpmcSystem Q V).queues x) =
      0 := by
    intro x
    exact Lib.dist_eq_zero.mpr rfl
  have hregions : ∀ x,
      regions (SpmcSystem.new sizes hsizes mpmcCapacity : SpmcSystem Q V) x = 0 := by
    intro x
    unfold regions
    rw [liveSlots, hlive]
    exact (zero_add _).trans Finset.sum_const_zero
  refine ⟨fun _ => rfl, fun t => ?_, fun x => ?_, fun x i => ?_, ?_, fun t => ?_, rfl⟩
  · refine Detached.pcOk {} ?_ (Nat.zero_le _)
    rw [hstolen, hlive]
    exact Nat.zero_le _
  · rw [if_pos (hstolen x)]
    exact Finset.sum_const_zero
  · rw [hregions]
    rfl
  · simp only [hregions]
    show (0 : Multiset V) + ∑ t : Q, (0 : Multiset V) =
      ∑ x : Q, (0 : Multiset V) + ∑ t : Q, (0 : Multiset V) + 0 + 0
    simp only [Finset.sum_const_zero, add_zero]
  · constructor <;> intro h <;> cases h

/-! ### The places of the values -/

/-- The values of the live items of a queue. -/
def liveValues (s : SpmcSystem Q V) (x : Q) : Multiset V :=
  slotValues (s.queues x) (liveSlots (s.queues x))

/-- The values that a thread has taken from a queue or from the `MpmcQueue` and has neither
handed out nor published: the slots it has claimed, the slots it has copied to, and the value in
its hand. -/
def inFlight (s : SpmcSystem Q V) (t : Q) : Multiset V :=
  let q := s.queues t
  match s.threads t with
  | .overflowMove _ counter left _ => slotValues q (ringSlots q.accessMask counter left)
  | .popRead i => slotValues q {i}
  | .stealRead src dstHead start count i =>
      slotValues q (ringSlots q.accessMask dstHead i) +
        slotValues (s.queues src) (ringSlots (s.queues src).accessMask (start + UInt32.ofNat i)
          (count.toNat - i))
  | .stealWrite src dstHead start count i v =>
      slotValues q (ringSlots q.accessMask dstHead i) +
        slotValues (s.queues src) (ringSlots (s.queues src).accessMask
          (start + UInt32.ofNat (i + 1)) (count.toNat - (i + 1))) + {v}
  | .stealReload _ dstHead count | .stealAlign _ dstHead count _ | .stealStore dstHead count =>
      slotValues q (ringSlots q.accessMask dstHead count.toNat)
  | .fetchMove head _ items | .fetchStore head items =>
      slotValues q (ringSlots q.accessMask head items)
  | _ => 0

omit [DecidableEq Q] [Fintype Q] in
theorem slotValues_zero (q : SpmcStealQueue V) : slotValues q 0 = 0 := rfl

omit [DecidableEq Q] [Fintype Q] in
theorem slotValues_sum_two (q : SpmcStealQueue V) (m n : Multiset UInt32) :
    slotValues q (m + n) = slotValues q m + slotValues q n :=
  Multiset.filterMap_add _ _ _

omit [DecidableEq Q] in
theorem slotValues_sum (q : SpmcStealQueue V) (f : Q → Multiset UInt32) :
    slotValues q (∑ t, f t) = ∑ t, slotValues q (f t) :=
  map_sum (AddMonoidHom.mk ⟨slotValues q, rfl⟩ (slotValues_sum_two q)) f Finset.univ

/-- The slots that a stealer has claimed are all in one queue. -/
theorem sum_slotValues_ite (src : Q) (slots : Q → List UInt32) :
    ∑ x, slotValues (s.queues x)
        ((if src = x then slots x else [] : List UInt32) : Multiset UInt32) =
      slotValues (s.queues src) (slots src) := by
  rw [Finset.sum_eq_single src, if_pos rfl]
  · intro x _ hx
    rw [if_neg hx.symm]
    rfl
  · intro hout
    exact absurd (Finset.mem_univ src) hout

/-- What a thread has in flight is in its slots and its hand, apart from a push that has written
its value and not yet published it. -/
theorem SystemOk.inFlight_add (h : SystemOk s) (t : Q) :
    inFlight s t + unpublished (s.threads t) =
      slotValues (s.queues t) (ownSlots (s.queues t).accessMask (s.threads t)) +
        ∑ x, slotValues (s.queues x) (sourceSlots x (s.queues x).accessMask (s.threads t)) +
        inHand (s.threads t) := by
  unfold inFlight
  cases hpc : s.threads t with
  | pushStore v head =>
      have hown := (h.thread t).own
      rw [hpc] at hown
      have hvalue : ((s.queues t).data ((s.queues t).index head)).value? = some v := by
        rw [show (s.queues t).data ((s.queues t).index head) = .full v from hown]
        rfl
      simp only [ownSlots, sourceSlots, inHand, unpublished, Multiset.coe_nil, slotValues_zero,
        Finset.sum_const_zero, add_zero, zero_add, ringSlots_one]
      exact (slotValues_add hvalue 0).symm
  | stealRead src dstHead start count i =>
      simp only [ownSlots, sourceSlots, inHand, unpublished, add_zero, sum_slotValues_ite]
  | stealWrite src dstHead start count i v =>
      simp only [ownSlots, sourceSlots, inHand, unpublished, add_zero, sum_slotValues_ite]
  | _ =>
      simp only [ownSlots, sourceSlots, inHand, unpublished, Multiset.coe_nil, slotValues_zero,
        Finset.sum_const_zero, add_zero, Multiset.coe_singleton]

/-- Every value pushed is in one place. -/
theorem SystemOk.pushed_eq (h : SystemOk s) :
    (s.pushed : Multiset V) =
      ∑ x, liveValues s x + ∑ t, inFlight s t + s.mpmc.items + s.popped := by
  have hsplit : ∑ x, slotValues (s.queues x) (regions s x) + ∑ t, inHand (s.threads t) =
      ∑ x, liveValues s x + (∑ t, inFlight s t + ∑ t, unpublished (s.threads t)) := by
    have hterm : ∀ x, slotValues (s.queues x) (regions s x) = liveValues s x +
        slotValues (s.queues x) (ownSlots (s.queues x).accessMask (s.threads x)) +
        ∑ t, slotValues (s.queues x) (sourceSlots x (s.queues x).accessMask (s.threads t)) := by
      intro x
      rw [regions, slotValues_sum_two, slotValues_sum_two, slotValues_sum, liveValues]
    rw [Finset.sum_congr rfl fun x _ => hterm x, Finset.sum_add_distrib, Finset.sum_add_distrib,
      Finset.sum_comm, ← Finset.sum_add_distrib (f := fun t => inFlight s t),
      Finset.sum_congr rfl fun t _ => h.inFlight_add t, Finset.sum_add_distrib,
      Finset.sum_add_distrib, add_assoc, add_assoc, add_assoc]
  have hvalues := h.values
  rw [hsplit] at hvalues
  classical
  ext v
  have hvalues := congrArg (Multiset.count v) hvalues
  simp only [Multiset.count_add] at hvalues ⊢
  omega

/-- The regions of a queue name each slot with an unread value once, and no other slot. -/
theorem SystemOk.regions_nodup (h : SystemOk s) (x : Q) :
    (regions s x).Nodup ∧ ∀ i, i ∈ regions s x ↔ ((s.queues x).data i).isFull = true := by
  refine ⟨Multiset.nodup_iff_count_le_one.mpr (h.count_regions_le x), fun i => ?_⟩
  rw [← Multiset.count_pos, ← h.slots x i]
  cases ((s.queues x).data i).isFull <;> decide

/-! ### Runs without a fetch -/

/-- The action does not begin a `fetch_from`. -/
def NotFetch : SpmcAction Q V → Prop
  | .fetch _ => False
  | _ => True

/-- The thread is in a `fetch_from`. -/
def fetching : Pc Q V → Bool
  | .fetchLoadHead | .fetchLoadTail _ | .fetchLen _ _ | .fetchLock _ _ | .fetchMove _ _ _
  | .fetchStore _ _ | .fetchUnlock => true
  | _ => false

omit [Fintype Q] in
/-- No step of another operation leads into a `fetch_from`. -/
theorem advance_not_fetching {t : Q} (hidle : fetching (s.threads t) = false)
    (hstep : s.step (.advance t) = some s') :
    ∃ pc', s'.threads = Function.update s.threads t pc' ∧ fetching pc' = false := by
  rcases advance_cases hstep with hstep | hstep | hstep | hstep
  · unfold advancePush at hstep
    dsimp only at hstep
    repeat' split at hstep
    all_goals
      cases hstep
      try exact ⟨_, rfl, rfl⟩
  · unfold advancePop at hstep
    dsimp only at hstep
    repeat' split at hstep
    all_goals
      cases hstep
      try exact ⟨_, rfl, rfl⟩
  · unfold advanceSteal at hstep
    dsimp only at hstep
    repeat' split at hstep
    all_goals
      cases hstep
      try exact ⟨_, rfl, rfl⟩
  · -- Only a thread that is in a fetch already takes one of its steps.
    unfold advanceFetch at hstep
    split at hstep
    all_goals
      rename_i hpc
      first
      | cases hstep; done
      | rw [hpc] at hidle; cases hidle

omit [Fintype Q] in
theorem step_not_fetching {a : SpmcAction Q V} (ha : NotFetch a)
    (hidle : ∀ t, fetching (s.threads t) = false) (hstep : s.step a = some s') (u : Q) :
    fetching (s'.threads u) = false := by
  have hmove : ∀ (t : Q) (pc' : Pc Q V), fetching pc' = false →
      fetching (Function.update s.threads t pc' u) = false := by
    intro t pc' hpc'
    by_cases hu : u = t
    · subst hu
      rwa [Function.update_self]
    · rw [Function.update_of_ne hu]
      exact hidle u
  cases a with
  | fetch t => exact absurd ha id
  | advance t =>
      obtain ⟨pc', hthreads, hpc'⟩ := advance_not_fetching (hidle t) hstep
      rw [hthreads]
      exact hmove t pc' hpc'
  | push t v | pop t | steal t src divider =>
      simp only [step] at hstep
      repeat' split at hstep
      all_goals
        cases hstep
        try exact hmove t _ rfl
  | mpmcPush v =>
      simp only [step] at hstep
      repeat' split at hstep
      all_goals
        cases hstep
        try exact hidle u

/-- A step of a push, a pop or a steal that does not let a tail go round. -/
def PushPopSteal (s : SpmcSystem Q V) (a : SpmcAction Q V) : Prop := NoWrap s a ∧ NotFetch a

/-- A step that does not let a tail go round and lets a fetch go on only where it fits. -/
def FetchGuarded (s : SpmcSystem Q V) (a : SpmcAction Q V) : Prop := NoWrap s a ∧ FetchFits s a

instance decidableNoWrapAt (s : SpmcSystem Q V) (pc : Pc Q V) : Decidable (NoWrapAt s pc) := by
  cases pc with
  | stealExchange => exact inferInstanceAs (Decidable (_ < _))
  | _ => exact .isTrue trivial

instance decidableNoWrap (s : SpmcSystem Q V) : (a : SpmcAction Q V) → Decidable (NoWrap s a)
  | .advance t => decidableNoWrapAt s (s.threads t)
  | .push _ _ | .pop _ | .steal _ _ _ | .fetch _ | .mpmcPush _ => .isTrue trivial

instance decidableFetchFitsAt (s : SpmcSystem Q V) (t : Q) (pc : Pc Q V) :
    Decidable (FetchFitsAt s t pc) := by
  cases pc with
  | fetchLen => exact inferInstanceAs (Decidable (_ ∨ _))
  | _ => exact .isTrue trivial

instance decidableFetchFits (s : SpmcSystem Q V) : (a : SpmcAction Q V) → Decidable (FetchFits s a)
  | .advance t => decidableFetchFitsAt s t (s.threads t)
  | .push _ _ | .pop _ | .steal _ _ _ | .fetch _ | .mpmcPush _ => .isTrue trivial

instance decidableNotFetch : (a : SpmcAction Q V) → Decidable (NotFetch a)
  | .fetch _ => .isFalse id
  | .push _ _ | .pop _ | .steal _ _ _ | .advance _ | .mpmcPush _ => .isTrue trivial

instance (s : SpmcSystem Q V) (a : SpmcAction Q V) : Decidable (PushPopSteal s a) :=
  inferInstanceAs (Decidable (_ ∧ _))

instance (s : SpmcSystem Q V) (a : SpmcAction Q V) : Decidable (FetchGuarded s a) :=
  inferInstanceAs (Decidable (_ ∧ _))

/-- In every run of pushes, pops and steals each value pushed is in one place: live in a queue,
in flight in one thread, in the `MpmcQueue`, or handed out by a pop. No slot belongs to two of
them, no unread value is overwritten and no slot is read without one. -/
theorem pushed_values_kept (sizes : Q → UInt32)
    (hsizes : ∀ q, ∃ k < 32, (sizes q).toNat = 2 ^ k) (mpmcCapacity : Nat) {s : SpmcSystem Q V}
    (hrun : Reaches SpmcSystem.step PushPopSteal (SpmcSystem.new sizes hsizes mpmcCapacity) s) :
    (s.pushed : Multiset V) =
        ∑ x, liveValues s x + ∑ t, inFlight s t + s.mpmc.items + s.popped ∧
      (∀ x, (regions s x).Nodup ∧
        ∀ i, i ∈ regions s x ↔ ((s.queues x).data i).isFull = true) ∧
      s.fault = false := by
  have hinv : SystemOk s ∧ ∀ t, fetching (s.threads t) = false := by
    refine hrun.invariant (I := fun s => SystemOk s ∧ ∀ t, fetching (s.threads t) = false)
      ⟨new_ok sizes hsizes mpmcCapacity, fun _ => rfl⟩ ?_
    rintro s a s' ⟨hok, hidle⟩ ⟨hwrap, hnot⟩ hstep
    refine ⟨step_ok hok hwrap ?_ hstep, step_not_fetching hnot hidle hstep⟩
    -- A thread that is not in a fetch meets the condition on fetches.
    cases a with
    | advance t =>
        have ht := hidle t
        show FetchFitsAt s t (s.threads t)
        cases hpc : s.threads t with
        | fetchLen head tail =>
            rw [hpc] at ht
            cases ht
        | _ => trivial
    | _ => trivial
  exact ⟨hinv.1.pushed_eq, hinv.1.regions_nodup, hinv.1.fault⟩

/-- Two queues of two slots. -/
def twoSizes (_ : Fin 2) : UInt32 := 2

theorem twoSizes_pow (q : Fin 2) : ∃ k < 32, (twoSizes q).toNat = 2 ^ k := ⟨1, by decide, rfl⟩

/-- A whole push of a value to the first queue when there is space. -/
def pushFirst (v : Nat) : List (SpmcAction (Fin 2) Nat) :=
  .push 0 v :: List.replicate 4 (.advance 0)

/-- The owner of the second queue steals from the first one up to its claim. -/
def claimFirst : List (SpmcAction (Fin 2) Nat) := .steal 1 0 none :: List.replicate 5 (.advance 1)

/-- The value 7 is pushed to the first queue, and the owner of the second queue has read it and
not yet written it. -/
theorem pushed_values_kept_in_hand :
    ∃ s : SpmcSystem (Fin 2) Nat,
      Reaches SpmcSystem.step PushPopSteal (.new twoSizes twoSizes_pow 2) s ∧
      s.threads 1 = .stealWrite 0 0 0 1 0 7 ∧ s.pushed = [7] ∧
      ({7} : Multiset Nat) =
        ∑ x, liveValues s x + ∑ t, inFlight s t + s.mpmc.items + s.popped := by
  have hexists : ∃ s : SpmcSystem (Fin 2) Nat,
      Reaches SpmcSystem.step PushPopSteal (.new twoSizes twoSizes_pow 2) s ∧
        s.threads 1 = .stealWrite 0 0 0 1 0 7 ∧ s.pushed = [7] :=
    exists_reaches (pushFirst 7 ++ claimFirst ++ [SpmcAction.advance 1]) (by decide)
  obtain ⟨s, hrun, hpc, hpushed⟩ := hexists
  refine ⟨s, hrun, hpc, hpushed, ?_⟩
  have hkept := (pushed_values_kept twoSizes twoSizes_pow 2 hrun).1
  rw [hpushed] at hkept
  exact hkept

/-- In every run in which a fetch finds no steal in progress or no more items than fit, no queue
holds more than its capacity between `steal` and `head`, the slots that a fetch writes are none
of those, and no value is lost or replaced. -/
theorem fetch_spares_stolen (sizes : Q → UInt32)
    (hsizes : ∀ q, ∃ k < 32, (sizes q).toNat = 2 ^ k) (mpmcCapacity : Nat) {s : SpmcSystem Q V}
    (hrun : Reaches SpmcSystem.step FetchGuarded (SpmcSystem.new sizes hsizes mpmcCapacity) s) :
    (∀ x, dist (stealOf (s.queues x).tail) (s.queues x).head ≤ (s.queues x).capacity.toNat) ∧
      (∀ t head possible items, s.threads t = .fetchMove head possible items → items < possible →
        ∀ d < dist (stealOf (s.queues t).tail) (s.queues t).head,
          (s.queues t).index (stealOf (s.queues t).tail + UInt32.ofNat d) ≠
            (s.queues t).index (head + UInt32.ofNat items)) ∧
      (s.pushed : Multiset V) =
        ∑ x, liveValues s x + ∑ t, inFlight s t + s.mpmc.items + s.popped ∧
      s.fault = false := by
  have hok : SystemOk s := by
    refine hrun.invariant (new_ok sizes hsizes mpmcCapacity) ?_
    rintro s a s' hok ⟨hwrap, hfits⟩ hstep
    exact step_ok hok hwrap hfits hstep
  refine ⟨fun x => ?_, fun t head possible items hpc hlt d hd heq => ?_, hok.pushed_eq, hok.fault⟩
  · rw [dist_steal_head (hok.room_le x)]
    exact hok.room_le x
  · have hthread := hok.thread t
    rw [hpc] at hthread
    have hhead : head = (s.queues t).head := hthread.head head rfl
    have hroom : stolen (s.queues t) + live (s.queues t) + possible ≤
      (s.queues t).capacity.toNat := hthread.room
    have hcap := capacity_lt (s.queues t)
    have hsteal := dist_steal_head (hok.room_le t)
    have hdist : dist (stealOf (s.queues t).tail) ((s.queues t).head + UInt32.ofNat items) =
        stolen (s.queues t) + live (s.queues t) + items := by
      rw [Lib.dist_add_right (by omega), hsteal]
    -- Less than a whole round from `steal`, the slot is none of those before `head`.
    have hout : (s.queues t).index ((s.queues t).head + UInt32.ofNat items) ∉
        ringSlots (s.queues t).accessMask (stealOf (s.queues t).tail)
          (stolen (s.queues t) + live (s.queues t)) :=
      not_mem_ringSlots (s.queues t).capacity_pow (s.queues t).accessMask_eq (by omega) (by omega)
    refine hout (List.mem_map.mpr ⟨d, List.mem_range.mpr (by omega), ?_⟩)
    rw [hhead] at heq
    exact heq

/-- The owner of the first queue fetches one item while nobody is stealing from it, and a steal
begins before it writes the slot. -/
theorem fetch_spares_stolen_late :
    ∃ s : SpmcSystem (Fin 2) Nat,
      Reaches SpmcSystem.step FetchGuarded (.new twoSizes twoSizes_pow 2) s ∧
      s.threads 0 = .fetchMove 1 1 0 ∧ s.threads 1 = .stealRead 0 0 0 1 0 ∧
      (s.queues 0).index (stealOf (s.queues 0).tail) ≠ (s.queues 0).index 1 := by
  have hexists : ∃ s : SpmcSystem (Fin 2) Nat,
      Reaches SpmcSystem.step FetchGuarded (.new twoSizes twoSizes_pow 2) s ∧
        s.threads 0 = .fetchMove 1 1 0 ∧ s.threads 1 = .stealRead 0 0 0 1 0 ∧
        0 < dist (stealOf (s.queues 0).tail) (s.queues 0).head :=
    exists_reaches (pushFirst 7 ++
      [SpmcAction.mpmcPush 8, .fetch 0, .advance 0, .advance 0, .advance 0, .advance 0] ++
      claimFirst) (by decide)
  obtain ⟨s, hrun, hfetch, hsteal, hpos⟩ := hexists
  refine ⟨s, hrun, hfetch, hsteal, ?_⟩
  have hspares := (fetch_spares_stolen twoSizes twoSizes_pow 2 hrun).2.1 0 1 1 0 hfetch (by decide)
    0 hpos
  simpa using hspares

/-- Both slots of the first queue are in use when a stealer claims the first item. A fetch then
finds one live item and takes one from the `MpmcQueue`, into the slot that the stealer has not
read yet. The stealer reads the fetched 9 in place of the 1, which is lost, and `head` is three
ahead of `steal`. -/
theorem fetch_overwrites_stolen :
    ∃ s : SpmcSystem (Fin 2) Nat,
      Reaches SpmcSystem.step NoWrap (.new twoSizes twoSizes_pow 2) s ∧
      s.fault = true ∧ s.threads 1 = .stealWrite 0 0 0 1 0 9 ∧
      (s.queues 0).capacity.toNat < dist (stealOf (s.queues 0).tail) (s.queues 0).head :=
  exists_reaches (pushFirst 1 ++ pushFirst 2 ++ [SpmcAction.mpmcPush 9] ++ claimFirst ++
    SpmcAction.fetch 0 :: List.replicate 7 (SpmcAction.advance 0) ++ [SpmcAction.advance 1])
    (by decide)

end Kyron.Proofs.Containers
