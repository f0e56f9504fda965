import Kyron.Lib.Refinement
import Kyron.Proofs.Containers.SpmcRing

/-!
# `Kyron.Proofs.Containers.Sequential`: the queues of the scheduler are bounded lists

`HoldLists s t` says that each queue of `s` holds its list in `t`. A call keeps that, and the
queues answer as the lists do (`HoldLists.step`), as long as the free space of the global queue is
a 32-bit number where `push_to_mpmc` casts it.

* `queues_refine_lists`: so it is in every run, with counters that start anywhere.

Without the condition the cast loses the high bits: `push_refused_by_empty_global` is a push that
fails although the global queue is empty.
-/

set_option autoImplicit false

namespace Kyron.Proofs.Containers

open Kyron.Containers
open Kyron.Containers.Sequential
open Kyron.Lib
open Function

variable {I V : Type} [DecidableEq I] {s : SchedulerQueues I V} {t : BoundedLists I V} {i : I}
  {q : SpmcStealQueue V} {m : Queue V} {l g : List V}

/-- Each queue holds its list. -/
structure HoldLists (s : SchedulerQueues I V) (t : BoundedLists I V) : Prop where
  queues : ∀ i, SpmcHolds (s.queues i) (t.items i)
  capacity : ∀ i, (s.queues i).capacity.toNat = t.capacity i
  mpmc : QueueHolds s.mpmc t.global
  mpmcCapacity : s.mpmc.capacity.toNat = t.globalCapacity

namespace HoldLists

theorem setQueue (h : HoldLists s t) (hq : SpmcHolds q l)
    (hcap : q.capacity = (s.queues i).capacity) :
    HoldLists (s.setQueue i q) (t.setItems i l) := by
  refine ⟨?_, ?_, h.mpmc, h.mpmcCapacity⟩
  · intro j
    show SpmcHolds (Function.update s.queues i q j) (Function.update t.items i l j)
    by_cases hj : j = i
    · subst hj
      rw [update_self, update_self]
      exact hq
    · rw [update_of_ne hj, update_of_ne hj]
      exact h.queues j
  · intro j
    show (Function.update s.queues i q j).capacity.toNat = t.capacity j
    by_cases hj : j = i
    · subst hj
      rw [update_self, hcap]
      exact h.capacity j
    · rw [update_of_ne hj]
      exact h.capacity j

omit [DecidableEq I] in
theorem setMpmc (h : HoldLists s t) (hm : QueueHolds m g) (hcap : m.capacity = s.mpmc.capacity) :
    HoldLists { s with mpmc := m } { t with global := g } := by
  refine ⟨h.queues, h.capacity, hm, ?_⟩
  show m.capacity.toNat = t.globalCapacity
  rw [hcap]
  exact h.mpmcCapacity

omit [DecidableEq I] in
theorem lists_eq (h : HoldLists s t) : s.lists = t :=
  BoundedLists.ext (funext fun i => (h.queues i).contents_eq) (funext h.capacity) h.mpmc.contents_eq
    h.mpmcCapacity

/-! ### One call -/

/-- The queues and the lists answer alike and stay related. -/
def Agree (r : SchedulerQueues I V × Answer V) (r' : BoundedLists I V × Answer V) : Prop :=
  HoldLists r.1 r'.1 ∧ r.2 = r'.2

/-- A `push`, which may move items to the global list. -/
theorem push (h : HoldLists s t) {value : V} (hfits : t.FreeSpaceFits (.push i value)) :
    Agree (s.step (.push i value)) (t.step (.push i value)) := by
  have hq := h.queues i
  have hcap := h.capacity i
  have hle := hq.length_le
  by_cases hroom : (t.items i).length < t.capacity i
  · obtain ⟨q', hrun, hq', hcap'⟩ := hq.push (by rw [hcap]; exact hroom) value s.mpmc
    rw [SchedulerQueues.step, hrun, BoundedLists.step, if_pos hroom]
    exact ⟨h.setQueue hq' hcap', rfl⟩
  · -- A full queue: half its length is half the capacity.
    have hfull : (s.queues i).capacity.toNat ≤ (t.items i).length := by omega
    have hspace := hfits.resolve_left hroom
    rw [← h.mpmcCapacity] at hspace
    have hn : t.overflow i =
        min (s.mpmc.capacity.toNat - t.global.length) ((t.items i).length / 2) := by
      rw [BoundedLists.overflow, h.mpmcCapacity, ← hcap, Nat.le_antisymm hfull hle]
    by_cases hzero : t.overflow i = 0
    · -- `push_to_mpmc` has run and moved nothing: the lists are the same.
      obtain ⟨q', m', hrun, hq', hcap', hm', hmcap⟩ :=
        hq.push_refused hfull h.mpmc hspace (hn.symm.trans hzero) value
      rw [SchedulerQueues.step, hrun, BoundedLists.step, if_neg hroom, if_pos hzero]
      refine ⟨?_, rfl⟩
      have hset := (h.setQueue hq' hcap').setMpmc hm' hmcap
      rwa [BoundedLists.setItems, update_eq_self] at hset
    · obtain ⟨q', m', hrun, hq', hcap', hm', hmcap⟩ :=
        hq.push_overflow hfull h.mpmc hspace hn hzero value
      rw [SchedulerQueues.step, hrun, BoundedLists.step, if_neg hroom, if_neg hzero]
      exact ⟨(h.setQueue hq' hcap').setMpmc hm' hmcap, rfl⟩

theorem pop (h : HoldLists s t) : Agree (s.step (.pop i)) (t.step (.pop i)) := by
  have hq := h.queues i
  rw [SchedulerQueues.step, BoundedLists.step]
  cases hl : t.items i with
  | nil =>
      rw [hl] at hq
      rw [hq.popLocal_nil]
      exact ⟨h.setQueue hq rfl, rfl⟩
  | cons v l =>
      rw [hl] at hq
      obtain ⟨q', hrun, hq', hcap⟩ := hq.popLocal
      rw [hrun]
      exact ⟨h.setQueue hq' hcap, rfl⟩

theorem fetchFrom (h : HoldLists s t) :
    Agree (s.step (.fetchFrom i)) (t.step (.fetchFrom i)) := by
  have hn : t.fetched i =
      min t.global.length ((s.queues i).capacity.toNat - (t.items i).length) := by
    rw [BoundedLists.fetched, h.capacity i]
  obtain ⟨q', m', hrun, hq', hcap, hm', hmcap⟩ := (h.queues i).fetchFrom h.mpmc hn
  rw [SchedulerQueues.step, hrun]
  exact ⟨(h.setQueue hq' hcap).setMpmc hm' hmcap, rfl⟩

/-- A steal: the front of one list goes to the end of another. -/
theorem stealInto (h : HoldLists s t) {src dst : I} {divider : Option UInt8}
    (hpermitted : t.Permitted (.stealInto src dst divider)) :
    Agree (s.step (.stealInto src dst divider)) (t.step (.stealInto src dst divider)) := by
  obtain ⟨hne, hdivider⟩ := hpermitted
  have hsrc := h.queues src
  have hdst := h.queues dst
  rw [SchedulerQueues.step, BoundedLists.step]
  by_cases hnone : (t.items src).length = 0 ∨ t.capacity dst ≤ (t.items dst).length
  · rw [if_pos hnone]
    rw [List.length_eq_zero_iff, ← h.capacity dst] at hnone
    rw [hsrc.stealInto_none hdst hnone]
    refine ⟨?_, rfl⟩
    have hset := (h.setQueue hsrc rfl).setQueue (i := dst) hdst (by
      rw [SchedulerQueues.setQueue, update_eq_self])
    rwa [BoundedLists.setItems, BoundedLists.setItems, update_eq_self, update_eq_self] at hset
  · rw [if_neg hnone]
    rw [not_or, List.length_eq_zero_iff, ← h.capacity dst, Nat.not_le] at hnone
    have hn : t.stolen src dst divider = max 1 (min ((t.items src).length /
        ((divider.getD 0).toNat + 2)) ((s.queues dst).capacity.toNat - (t.items dst).length)) := by
      rw [BoundedLists.stolen, h.capacity dst]
    obtain ⟨q', dst', k, hrun, hk, hq', hcap, hdst', hcap'⟩ :=
      hsrc.stealInto hnone.1 hdst hnone.2 hdivider hn
    rw [hrun]
    -- The queues are different, so the update of the first leaves the second alone.
    refine ⟨(h.setQueue hq' hcap).setQueue hdst' ?_, ?_⟩
    · show dst'.capacity = (Function.update s.queues src q' dst).capacity
      rw [update_of_ne hne.symm, hcap']
    · show Answer.stolen (some k.toNat) = .stolen (some _)
      rw [hk]

theorem mpmcPush (h : HoldLists s t) {item : V} :
    Agree (s.step (.mpmcPush item)) (t.step (.mpmcPush item)) := by
  rw [SchedulerQueues.step, BoundedLists.step]
  by_cases hroom : t.global.length < t.globalCapacity
  · obtain ⟨m', hrun, hm', hcap⟩ := h.mpmc.push (by rw [h.mpmcCapacity]; exact hroom) item
    rw [hrun, if_pos hroom]
    exact ⟨h.setMpmc hm' hcap, rfl⟩
  · rw [h.mpmc.push_full (by rw [h.mpmcCapacity]; omega), if_neg hroom]
    exact ⟨h, rfl⟩

theorem mpmcPop (h : HoldLists s t) : Agree (s.step .mpmcPop) (t.step .mpmcPop) := by
  have hm := h.mpmc
  rw [SchedulerQueues.step, BoundedLists.step]
  cases hg : t.global with
  | nil =>
      rw [hg] at hm
      rw [hm.pop_nil]
      exact ⟨h.setMpmc hm rfl, rfl⟩
  | cons v g =>
      rw [hg] at hm
      obtain ⟨m', hrun, hm', hcap⟩ := hm.pop
      rw [hrun]
      exact ⟨h.setMpmc hm' hcap, rfl⟩

/-- Every call. -/
theorem step (h : HoldLists s t) (op : Op I V) (hpermitted : t.Permitted op)
    (hfits : t.FreeSpaceFits op) : Agree (s.step op) (t.step op) := by
  cases op with
  | push i value => exact h.push hfits
  | pop i => exact h.pop
  | fetchFrom i => exact h.fetchFrom
  | stealInto src dst divider => exact h.stealInto hpermitted
  | count i => exact ⟨h, congrArg Answer.counted (h.queues i).count_eq⟩
  | mpmcPush item => exact h.mpmcPush
  | mpmcPop => exact h.mpmcPop
  | mpmcLen => exact ⟨h, congrArg Answer.counted h.mpmc.len⟩

end HoldLists

/-! ### Runs -/

section Start

variable (size : I → UInt32) (hsize : ∀ i, ∃ k < 32, (size i).toNat = 2 ^ k)
  (counter : I → UInt32) (mpmcSize : UInt64) (hmpmc : ∃ k < 64, mpmcSize.toNat = 2 ^ k)
  (mpmcCounter : UInt64)

omit [DecidableEq I] in
/-- The queues are empty at first, wherever the counters are. -/
theorem holdLists_start : HoldLists (V := V)
    (SchedulerQueues.start size hsize counter mpmcSize hmpmc mpmcCounter)
    (BoundedLists.start size mpmcSize) := by
  have hsteal : ∀ i, stealOf (packTail (counter i) (counter i)) =
      realOf (packTail (counter i) (counter i)) := by
    intro i
    rw [stealOf_packTail, realOf_packTail]
  refine ⟨fun i => ⟨⟨?_, ?_, ringHolds_nil⟩, hsteal i⟩, fun _ => rfl,
    ⟨?_, Nat.zero_le _, ringHolds_nil⟩, rfl⟩
  · show dist (realOf (packTail (counter i) (counter i))) (counter i) = 0
    rw [realOf_packTail, Lib.dist_self]
  · show dist (stealOf (packTail (counter i) (counter i)))
      (realOf (packTail (counter i) (counter i))) + 0 ≤ (size i).toNat
    rw [hsteal i, Lib.dist_self]
    exact Nat.zero_le _
  · show (mpmcCounter - mpmcCounter).toNat = 0
    rw [UInt64.sub_self, UInt64.toNat_zero]

/-- From empty queues of any power-of-two capacities whose counters are anywhere, every run answers
as the run of the lists does, and the rings hold the lists afterwards, if the free space of the
global queue is a 32-bit number at each push to a full queue. -/
theorem queues_refine_lists (ops : List (Op I V))
    (hpermitted : Along BoundedLists.step BoundedLists.Permitted
      (BoundedLists.start size mpmcSize) ops)
    (hfits : Along BoundedLists.step BoundedLists.FreeSpaceFits
      (BoundedLists.start size mpmcSize) ops) :
    (run SchedulerQueues.step
        (SchedulerQueues.start size hsize counter mpmcSize hmpmc mpmcCounter) ops).2 =
      (run BoundedLists.step (BoundedLists.start size mpmcSize) ops).2 ∧
    (run SchedulerQueues.step
        (SchedulerQueues.start size hsize counter mpmcSize hmpmc mpmcCounter) ops).1.lists =
      (run BoundedLists.step (BoundedLists.start size mpmcSize) ops).1 := by
  have hstep : ∀ (s : SchedulerQueues I V) (t : BoundedLists I V) (op : Op I V), HoldLists s t →
      t.Permitted op ∧ t.FreeSpaceFits op →
      HoldLists (s.step op).1 (t.step op).1 ∧ (s.step op).2 = (t.step op).2 :=
    fun _ _ op h hok => h.step op hok.1 hok.2
  obtain ⟨hend, hanswers⟩ := run_refines hstep ops
    (holdLists_start size hsize counter mpmcSize hmpmc mpmcCounter) (hpermitted.and hfits)
  exact ⟨hanswers, hend.lists_eq⟩

end Start

/-- Two queues overflow, fetch, steal and pop. -/
def wrappingOps : List (Op Bool Nat) :=
  [Op.push true 1, .push true 2, .push true 3, .fetchFrom false, .stealInto true false none,
    .stealInto true false none, .pop false, .pop false, .count true]

/-- The counters of both stealing queues and of the global one wrap around in this run. The third
push moves an item to the global queue, from where the second queue fetches it. -/
theorem queues_refine_lists_wrapping :
    (run SchedulerQueues.step
      (SchedulerQueues.start (fun _ => 2) (fun _ => ⟨1, by decide⟩) (fun _ => 4294967295)
        2 ⟨1, by decide⟩ 18446744073709551615) wrappingOps).2 =
      [.pushed none, .pushed none, .pushed none, .fetched 1, .stolen (some 1), .stolen none,
        .popped (some 1), .popped (some 2), .counted 1] :=
  (queues_refine_lists (fun _ => 2) (fun _ => ⟨1, by decide⟩) (fun _ => 4294967295)
    2 ⟨1, by decide⟩ 18446744073709551615 wrappingOps
    ⟨trivial, trivial, trivial, trivial, ⟨by decide, by decide⟩, ⟨by decide, by decide⟩, trivial,
      trivial, trivial, trivial⟩
    ⟨Or.inl (by decide), Or.inl (by decide), Or.inr (by decide), trivial, trivial, trivial, trivial,
      trivial, trivial, trivial⟩).1.trans (by decide)

/-- Three pushes to a queue of two slots. -/
def overflowOps : List (Op Unit Nat) := [Op.push () 1, .push () 2, .push () 3]

/-- With a global queue of `2 ^ 32` slots, none of them in use, `push_to_mpmc` finds no free space:
the third push is refused, and the lists take it. -/
theorem push_refused_by_empty_global :
    Along BoundedLists.step BoundedLists.Permitted
      (BoundedLists.start (fun _ => 2) 4294967296) overflowOps ∧
    (run SchedulerQueues.step
      (SchedulerQueues.start (fun _ => 2) (fun _ => ⟨1, by decide⟩) (fun _ => 0)
        4294967296 ⟨32, by decide⟩ 0) overflowOps).2 =
      [.pushed none, .pushed none, .pushed (some 3)] ∧
    (run BoundedLists.step (BoundedLists.start (fun _ => 2) 4294967296) overflowOps).2 =
      [.pushed none, .pushed none, .pushed none] :=
  ⟨⟨trivial, trivial, trivial, trivial⟩, by decide, by decide⟩

end Kyron.Proofs.Containers
