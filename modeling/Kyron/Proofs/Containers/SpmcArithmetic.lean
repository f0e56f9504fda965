import Kyron.Containers.SpmcArithmetic
import Kyron.Proofs.Containers.SpmcRing
import Kyron.Proofs.Containers.SpmcSystem

/-!
# `Kyron.Proofs.Containers.SpmcArithmetic`: the counters near `u32::MAX`

The counters wrap around, and two sums on them do not: `head + num_items` in `fetch_from` and
`dst_head + i` in `steal_internal`. They leave `u32` when the destination's `head` is less than
a batch away from `2 ^ 32`.

* `plain_ops_fit`: in every run in which no batch crosses `2 ^ 32`, every plain `+` and `-` of
  two `u32`s has a `u32` as its result, and the index that an operation computes is the position
  of the item modulo the capacity. A position counts all items since the queue was made.
* `fetch_sum_overflows`: after `2 ^ 32 - 1` pushes and pops a `fetch_from` of two items computes
  `u32::MAX + 1`.

The other plain operations fit because of the capacity: `start_idx` is masked, and a tail shows
no more items than the capacity.
-/

set_option autoImplicit false

namespace Kyron.Proofs.Containers

open Kyron.Containers
open Kyron.Lib
open Function
open SpmcSystem

variable {Q V : Type} [DecidableEq Q]
variable {s s' : SpmcSystem Q V} {t : Q} {a : SpmcAction Q V}

/-! ### Indexes -/

/-- The ways to compute the slot of the item `k` places behind a counter: from the sum, from a
counter that is masked before the sum, and by masking after every single step. -/
structure SlotsWrap (q : SpmcStealQueue V) : Prop where
  sum : ∀ (c : UInt32) (k : Nat),
    (q.index (c + UInt32.ofNat k)).toNat = (c.toNat + k) % q.capacity.toNat
  masked : ∀ (c : UInt32) (k : Nat),
    (q.index (q.index c + UInt32.ofNat k)).toNat = (c.toNat + k) % q.capacity.toNat
  loop : ∀ (c : UInt32) (k : Nat),
    (q.index ((fun i => q.index i + 1)^[k] c)).toNat = (c.toNat + k) % q.capacity.toNat

theorem slotsWrap (q : SpmcStealQueue V) : SlotsWrap q where
  sum c k := by rw [index_toNat, add_mod_capacity]
  masked c k := by rw [index_toNat, add_mod_capacity, index_toNat, Nat.mod_add_mod]
  loop c k := by
    induction k generalizing c with
    | zero => exact index_toNat q c
    | succ k ih =>
        have hone := add_mod_capacity q (q.index c) 1
        rw [index_toNat, Nat.mod_add_mod] at hone
        rw [Function.iterate_succ_apply, ih, Nat.add_mod,
          show (1 : UInt32) = UInt32.ofNat 1 from rfl, hone, ← Nat.add_mod, Nat.add_right_comm, Nat.add_assoc]

/-- The slot `k` places behind `real_tail`, by the number of items taken since the queue was
made. -/
theorem index_real_add [Fintype Q] (h : SystemOk s) (x : Q) (k : Nat) :
    ((s.queues x).index (realOf (s.queues x).tail + UInt32.ofNat k)).toNat =
      (s.advanced x + k) % (s.queues x).capacity.toNat := by
  have hdvd := dvd_two_pow (s.queues x).capacity_pow
  rw [(slotsWrap _).sum, h.real, UInt32.toNat_ofNat', Nat.add_mod, Nat.mod_mod_of_dvd _ hdvd,
    ← Nat.add_mod]

/-! ### The condition -/

/-- A batch of items goes to counters below `2 ^ 32`: a fetch from its lock on, and a steal from
the exchange on that claims its items. -/
def batchFitsAt (s : SpmcSystem Q V) : Pc Q V → Bool
  | .stealExchange src dstHead size divider tail _ head =>
      (s.queues src).tail = tail →
        dstHead.toNat + (stealCount head tail size divider).toNat ≤ UInt32.size
  | .fetchLock head possible => head.toNat + possible ≤ UInt32.size
  | _ => true

def BatchFits (s : SpmcSystem Q V) : SpmcAction Q V → Prop
  | .advance t => batchFitsAt s (s.threads t) = true
  | _ => True

/-- A step that meets the conditions on steals and fetches and the one on batches. -/
def BatchGuarded (s : SpmcSystem Q V) (a : SpmcAction Q V) : Prop :=
  FetchGuarded s a ∧ BatchFits s a

instance decidableBatchFits (s : SpmcSystem Q V) : (a : SpmcAction Q V) → Decidable (BatchFits s a)
  | .advance t => inferInstanceAs (Decidable (batchFitsAt s (s.threads t) = true))
  | .push _ _ | .pop _ | .steal _ _ _ | .fetch _ | .mpmcPush _ => .isTrue trivial

instance (s : SpmcSystem Q V) (a : SpmcAction Q V) : Decidable (BatchGuarded s a) :=
  inferInstanceAs (Decidable (_ ∧ _))

/-! ### What a thread knows of its operands -/

/-- The bounds that a thread has checked or found when it stands at `pc`. -/
def RangeOk (capacity : UInt32) : Pc Q V → Prop
  | .overflowMove _ _ left successful => left + successful < UInt32.size
  | .stealRead _ dstHead _ count _ | .stealWrite _ dstHead _ count _ _ =>
      dstHead.toNat + count.toNat ≤ UInt32.size
  | .fetchLen head tail => countInternal head tail ≤ capacity
  | .fetchMove head possible _ => head.toNat + possible ≤ UInt32.size
  | _ => True

omit [DecidableEq Q] in
theorem rangeOk_of_eq {capacity : UInt32} {pc' : Pc Q V} (hthread : s'.threads t = pc')
    (h : RangeOk capacity pc') : RangeOk capacity (s'.threads t) := by
  rw [hthread]
  exact h

theorem advancePush_rangeOk {capacity : UInt32} (h : RangeOk capacity (s.threads t))
    (hstep : s.advancePush t = some s') : RangeOk capacity (s'.threads t) := by
  unfold advancePush at hstep
  cases hpc : s.threads t with
  | overflowExchange v head free tail =>
      rw [hpc] at hstep
      dsimp only at hstep
      split at hstep
      · cases hstep
        exact rangeOk_of_eq (update_self ..) (UInt32.toNat_lt_size _)
      · cases hstep
        exact rangeOk_of_eq (update_self ..) trivial
  | overflowMove v counter left successful =>
      rw [hpc] at hstep h
      cases left with
      | zero =>
          cases hstep
          exact rangeOk_of_eq (update_self ..) trivial
      | succ left =>
          dsimp only at hstep
          repeat' split at hstep
          · cases hstep
            exact rangeOk_of_eq (update_self ..) trivial
          · cases hstep
            exact rangeOk_of_eq (update_self ..) trivial
          · cases hstep
            refine rangeOk_of_eq (update_self ..) ?_
            rw [RangeOk, Nat.add_right_comm] at h
            exact h
  | _ =>
      rw [hpc] at hstep
      dsimp only at hstep
      repeat' split at hstep
      all_goals
        cases hstep
        try exact rangeOk_of_eq (update_self ..) trivial

theorem advancePop_rangeOk {capacity : UInt32} (hstep : s.advancePop t = some s') :
    RangeOk capacity (s'.threads t) := by
  unfold advancePop at hstep
  dsimp only at hstep
  repeat' split at hstep
  all_goals
    cases hstep
    try exact rangeOk_of_eq (update_self ..) trivial

theorem advanceSteal_rangeOk {capacity : UInt32} (hfits : batchFitsAt s (s.threads t) = true)
    (h : RangeOk capacity (s.threads t)) (hstep : s.advanceSteal t = some s') :
    RangeOk capacity (s'.threads t) := by
  unfold advanceSteal at hstep
  cases hpc : s.threads t with
  | stealExchange src dstHead size divider tail since head =>
      rw [hpc] at hstep hfits
      dsimp only at hstep
      split at hstep
      · rename_i htail
        split at hstep
        · cases hstep
          exact rangeOk_of_eq (update_self ..) trivial
        · cases hstep
          exact rangeOk_of_eq (update_self ..) (of_decide_eq_true hfits htail)
      · cases hstep
        exact rangeOk_of_eq (update_self ..) trivial
  | stealRead src dstHead start count i =>
      rw [hpc] at hstep h
      dsimp only at hstep
      split at hstep
      · cases hstep
        exact rangeOk_of_eq (update_self ..) trivial
      · cases hstep
        exact rangeOk_of_eq (update_self ..) h
  | stealWrite src dstHead start count i v =>
      rw [hpc] at hstep h
      dsimp only at hstep
      split at hstep
      · cases hstep
        exact rangeOk_of_eq (update_self ..) h
      · cases hstep
        exact rangeOk_of_eq (update_self ..) trivial
  | _ =>
      rw [hpc] at hstep
      dsimp only at hstep
      repeat' split at hstep
      all_goals
        cases hstep
        try exact rangeOk_of_eq (update_self ..) trivial

theorem advanceFetch_rangeOk [Fintype Q] (hok : SystemOk s)
    (hfits : batchFitsAt s (s.threads t) = true) (h : RangeOk (s.queues t).capacity (s.threads t))
    (hstep : s.advanceFetch t = some s') : RangeOk (s.queues t).capacity (s'.threads t) := by
  have hthread := hok.thread t
  unfold advanceFetch at hstep
  cases hpc : s.threads t with
  | fetchLoadTail head =>
      rw [hpc] at hstep hthread
      cases hstep
      have hhead : head = (s.queues t).head := hthread.head head rfl
      refine rangeOk_of_eq (update_self ..) ?_
      -- The tail shows the live items, and they are part of the capacity.
      show countInternal head (s.queues t).tail ≤ (s.queues t).capacity
      rw [UInt32.le_iff_toNat_le, hhead]
      exact le_trans (Nat.le_add_left _ _) (hok.room_le t)
  | fetchLock head possible =>
      rw [hpc] at hstep hfits
      obtain ⟨-, rfl⟩ := Option.ite_some_none_eq_some.mp hstep
      have hle : head.toNat + possible ≤ UInt32.size := of_decide_eq_true hfits
      exact rangeOk_of_eq (update_self ..) hle
  | fetchMove head possible items =>
      rw [hpc] at hstep h
      dsimp only at hstep
      repeat' split at hstep
      · cases hstep
        exact rangeOk_of_eq (update_self ..) trivial
      · cases hstep
        exact rangeOk_of_eq (update_self ..) h
      · cases hstep
        exact rangeOk_of_eq (update_self ..) trivial
  | _ =>
      rw [hpc] at hstep
      dsimp only at hstep
      repeat' split at hstep
      all_goals
        cases hstep
        try exact rangeOk_of_eq (update_self ..) trivial

variable [Fintype Q]

/-- A thread's own step keeps what it knows of its operands. -/
theorem own_rangeOk (hok : SystemOk s) (hfits : BatchFits s a)
    (h : RangeOk (s.queues t).capacity (s.threads t)) (ht : actor a = some t)
    (hstep : s.step a = some s') : RangeOk (s.queues t).capacity (s'.threads t) := by
  rcases ownStep_cases ht hstep with ⟨-, pc', hstart, rfl⟩ | rfl
  · refine rangeOk_of_eq (update_self ..) ?_
    cases hstart <;> trivial
  · rcases advance_cases hstep with hpush | hpop | hsteal | hfetch
    · exact advancePush_rangeOk h hpush
    · exact advancePop_rangeOk hpop
    · exact advanceSteal_rangeOk hfits h hsteal
    · exact advanceFetch_rangeOk hok hfits h hfetch

/-- What the threads know of their operands in every state of a guarded run. -/
structure ArithmeticOk (s : SpmcSystem Q V) : Prop where
  system : SystemOk s
  range : ∀ t, RangeOk (s.queues t).capacity (s.threads t)

theorem ArithmeticOk.step (h : ArithmeticOk s) (hguard : BatchGuarded s a)
    (hstep : s.step a = some s') : ArithmeticOk s' := by
  refine ⟨step_ok h.system hguard.1.1 hguard.1.2 hstep, ?_⟩
  intro t
  rw [step_capacity hstep]
  by_cases ht : actor a = some t
  · exact own_rangeOk h.system hguard.2 (h.range t) ht hstep
  · rw [(step_other hstep ht).1]
    exact h.range t

/-- A masked counter is below the capacity, and a claim takes no more items than that. -/
theorem start_add_fits (h : SystemOk s) {src : Q} {dstHead start count : UInt32} {i : Nat}
    (hpc : s.threads t = .stealRead src dstHead start count i) :
    start.toNat + i < UInt32.size := by
  have hthread := h.thread t
  rw [hpc] at hthread
  have hi : i < count.toNat := hthread.locals.2
  obtain ⟨hstart, hcount⟩ : start = (s.queues src).index (stealOf (s.queues src).tail) ∧
    count.toNat ≤ stolen (s.queues src) := hthread.source
  have hroom := h.room_le src
  have hlt : start.toNat < (s.queues src).capacity.toNat := by
    rw [hstart, index_toNat]
    exact Nat.mod_lt _ (capacity_pos _)
  -- The capacity is a power of two below `2 ^ 32`, so twice the capacity is at most `2 ^ 32`.
  obtain ⟨k, hk, hpow⟩ := (s.queues src).capacity_pow
  have htwice : 2 ^ k * 2 ≤ 2 ^ 32 := by
    rw [← Nat.pow_succ]
    exact Nat.pow_le_pow_right (by decide) hk
  show start.toNat + i < 2 ^ 32
  omega

theorem ArithmeticOk.fits (h : ArithmeticOk s) (t : Q) : ∀ op ∈ s.plainOps t, op.Fits := by
  have hrange := h.range t
  have hthread := h.system.thread t
  intro op hop
  unfold plainOps at hop
  cases hpc : s.threads t with
  | overflowMove v counter left successful =>
      rw [hpc] at hop hrange
      cases left with
      | zero => cases hop
      | succ left =>
          obtain rfl := List.mem_singleton.mp hop
          show successful + 1 < UInt32.size
          have : left + 1 + successful < UInt32.size := hrange
          omega
  | stealLoadDstTail src divider dstHead =>
      rw [hpc] at hop
      dsimp only at hop
      split at hop
      · cases hop
      · rename_i hlt
        obtain rfl := List.mem_singleton.mp hop
        rw [ge_iff_le, UInt32.not_le, UInt32.lt_iff_toNat_lt] at hlt
        exact hlt.le
  | stealRead src dstHead start count i =>
      rw [hpc] at hop hrange hthread
      have hi : i < count.toNat := hthread.locals.2
      rcases List.mem_cons.mp hop with rfl | hop
      · exact start_add_fits h.system hpc
      · obtain rfl := List.mem_singleton.mp hop
        show dstHead.toNat + i < UInt32.size
        have : dstHead.toNat + count.toNat ≤ UInt32.size := hrange
        omega
  | fetchLen head tail =>
      rw [hpc] at hop hrange
      obtain rfl := List.mem_singleton.mp hop
      exact UInt32.le_iff_toNat_le.mp hrange
  | fetchMove head possible items =>
      rw [hpc] at hop hrange
      dsimp only at hop
      split at hop
      · rename_i hmore
        obtain rfl := List.mem_singleton.mp hop
        show head.toNat + items < UInt32.size
        have : head.toNat + possible ≤ UInt32.size := hrange
        omega
      · cases hop
  | _ =>
      rw [hpc] at hop
      cases hop

/-- In every run in which no batch crosses `2 ^ 32`, every plain operation on two `u32`s has a
`u32` as its result. Every index is the position of its item modulo the capacity, where the
position of the item `k` places behind `real_tail` is `k` more than the number of items taken
since the queue was made. -/
theorem plain_ops_fit (sizes : Q → UInt32) (hsizes : ∀ q, ∃ k < 32, (sizes q).toNat = 2 ^ k)
    (mpmcCapacity : Nat) {s : SpmcSystem Q V}
    (hrun : Reaches SpmcSystem.step BatchGuarded (SpmcSystem.new sizes hsizes mpmcCapacity) s) :
    (∀ t, ∀ op ∈ s.plainOps t, op.Fits) ∧
      (∀ x, SlotsWrap (s.queues x)) ∧
      ∀ x k, ((s.queues x).index (realOf (s.queues x).tail + UInt32.ofNat k)).toNat =
          (s.advanced x + k) % (s.queues x).capacity.toNat ∧
        ((s.queues x).index ((s.queues x).head + UInt32.ofNat k)).toNat =
          (s.advanced x + live (s.queues x) + k) % (s.queues x).capacity.toNat := by
  have hok : ArithmeticOk s := by
    refine hrun.invariant ⟨new_ok sizes hsizes mpmcCapacity, fun _ => trivial⟩ ?_
    intro s a s' hok hguard hstep
    exact hok.step hguard hstep
  refine ⟨hok.fits, fun x => slotsWrap _, ?_⟩
  intro x k
  refine ⟨index_real_add hok.system x k, ?_⟩
  have hhead : realOf (s.queues x).tail + UInt32.ofNat (live (s.queues x)) = (s.queues x).head :=
    add_dist _ _
  rw [← hhead, UInt32.add_assoc, ← UInt32.ofNat_add, index_real_add hok.system, Nat.add_assoc]

/-- A fetch of two items into an empty queue adds 1 to its `head`. -/
theorem plain_ops_fit_fetch :
    ∃ s : SpmcSystem (Fin 2) Nat,
      Reaches SpmcSystem.step BatchGuarded (.new twoSizes twoSizes_pow 2) s ∧
      s.plainOps 0 = [.add 0 1] ∧ (PlainOp.add 0 1).Fits := by
  have hexists : ∃ s : SpmcSystem (Fin 2) Nat,
      Reaches SpmcSystem.step BatchGuarded (.new twoSizes twoSizes_pow 2) s ∧
        s.plainOps 0 = [.add 0 1] :=
    exists_reaches (SpmcAction.mpmcPush 8 :: .mpmcPush 9 :: .fetch 0 ::
      List.replicate 5 (SpmcAction.advance 0)) (by decide)
  obtain ⟨s, hrun, hops⟩ := hexists
  refine ⟨s, hrun, hops, (plain_ops_fit twoSizes twoSizes_pow 2 hrun).1 0 _ ?_⟩
  rw [hops]
  exact List.mem_singleton_self _

/-! ### Around the end of the counters -/

/-- The queue of `t` is empty at the position `k`, its owner is idle and the `MpmcQueue` is
empty. -/
structure EmptyAt (s : SpmcSystem Q V) (t : Q) (k : Nat) : Prop where
  idle : s.threads t = .idle
  head : (s.queues t).head = UInt32.ofNat k
  tail : (s.queues t).tail = packTail (UInt32.ofNat k) (UInt32.ofNat k)
  items : s.mpmc.items = []
  lock : s.lock = none

omit [Fintype Q]

/-- A thread that is neither at the exchange of a steal nor at the length of the `MpmcQueue` goes
on. -/
theorem reaches_advance {s₀ : SpmcSystem Q V} {pc : Pc Q V} (s' : SpmcSystem Q V)
    (hrun : Reaches SpmcSystem.step FetchGuarded s₀ (s.goto t pc))
    (hguard : ∀ s : SpmcSystem Q V, NoWrapAt s pc ∧ FetchFitsAt s t pc)
    (hstep : (s.goto t pc).step (.advance t) = some s') :
    Reaches SpmcSystem.step FetchGuarded s₀ s' := by
  have hpc : (s.goto t pc).threads t = pc := update_self ..
  refine hrun.tail (.advance t) ?_ hstep
  show NoWrapAt _ ((s.goto t pc).threads t) ∧ FetchFitsAt _ t ((s.goto t pc).threads t)
  rw [hpc]
  exact hguard _

/-- A whole push when there is space. -/
theorem reaches_push (hidle : s.threads t = .idle)
    (hspace : (s.queues t).hasSpace (s.queues t).head (s.queues t).tail = true) (v : V) :
    Reaches SpmcSystem.step FetchGuarded s
      { ((s.writeSlot t ((s.queues t).index (s.queues t).head) v).setHead t
        ((s.queues t).head + 1)).goto t .idle with pushed := s.pushed ++ [v] } := by
  have hbegin : Reaches SpmcSystem.step FetchGuarded s (s.goto t (.pushLoadHead v false)) := by
    refine Reaches.refl.tail (.push t v) ⟨trivial, trivial⟩ ?_
    simp only [step, hidle]
  have htail := reaches_advance (s.goto t (.pushLoadTail v false (s.queues t).head)) hbegin
    (fun _ => ⟨trivial, trivial⟩) (by
      simp [step, advancePush, goto])
  have hwrite := reaches_advance (s.goto t (.pushWrite v (s.queues t).head)) htail
    (fun _ => ⟨trivial, trivial⟩) (by
      simp [step, advancePush, goto, hspace])
  have hstore := reaches_advance
    ((s.writeSlot t ((s.queues t).index (s.queues t).head) v).goto t
      (.pushStore v (s.queues t).head)) hwrite (fun _ => ⟨trivial, trivial⟩) (by
      simp [step, advancePush, goto, writeSlot, setQueue])
  refine reaches_advance _ hstore (fun _ => ⟨trivial, trivial⟩) ?_
  simp [step, advancePush, goto, writeSlot, setQueue, setHead]

/-- A whole pop when there is an item and nobody steals. -/
theorem reaches_pop (hidle : s.threads t = .idle)
    (hne : (s.queues t).head ≠ (unpackTail (s.queues t).tail).2) {v : V}
    (hvalue : ((s.queues t).data ((s.queues t).index (unpackTail (s.queues t).tail).2)).value? =
      some v) :
    Reaches SpmcSystem.step FetchGuarded s
      { ((s.setTail t (advanceTail (s.queues t).tail 1) 1).readSlot t
        ((s.queues t).index (unpackTail (s.queues t).tail).2)).goto t .idle with
        popped := s.popped ++ [v] } := by
  have hbegin : Reaches SpmcSystem.step FetchGuarded s (s.goto t .popLoadTail) := by
    refine Reaches.refl.tail (.pop t) ⟨trivial, trivial⟩ ?_
    simp only [step, hidle]
  have hhead := reaches_advance (s.goto t (.popLoadHead (s.queues t).tail)) hbegin
    (fun _ => ⟨trivial, trivial⟩) (by
      simp [step, advancePush, advancePop, goto])
  have hexchange := reaches_advance
    (s.goto t (.popExchange (s.queues t).tail (s.queues t).head)) hhead
    (fun _ => ⟨trivial, trivial⟩) (by
      simp [step, advancePush, advancePop, goto, hne])
  have hread := reaches_advance
    ((s.setTail t (advanceTail (s.queues t).tail 1) 1).goto t
      (.popRead ((s.queues t).index (unpackTail (s.queues t).tail).2))) hexchange
    (fun _ => ⟨trivial, trivial⟩) (by
      simp [step, advancePush, advancePop, goto, setTail, setQueue])
  refine reaches_advance _ hread (fun _ => ⟨trivial, trivial⟩) ?_
  simp [step, advancePush, advancePop, goto, setTail, setQueue, readSlot, hvalue]

/-- One push and one pop move an empty queue to the next position. -/
theorem emptyAt_succ {k : Nat} (h : EmptyAt s t k) (v : V) :
    ∃ s', Reaches SpmcSystem.step FetchGuarded s s' ∧ EmptyAt s' t (k + 1) ∧
      (s'.queues t).capacity = (s.queues t).capacity ∧ s'.mpmc = s.mpmc := by
  have hunpack : unpackTail (s.queues t).tail = (UInt32.ofNat k, UInt32.ofNat k) := by
    rw [h.tail, unpackTail_packTail]
  have hspace : (s.queues t).hasSpace (s.queues t).head (s.queues t).tail = true := by
    rw [SpmcStealQueue.hasSpace, h.head, hunpack, UInt32.sub_self, decide_eq_true_iff,
      UInt32.lt_iff_toNat_lt]
    exact capacity_pos _
  have hadvance : advanceTail (s.queues t).tail 1 =
      packTail (UInt32.ofNat k + 1) (UInt32.ofNat k + 1) := by
    rw [advanceTail, hunpack]
    exact if_pos rfl
  have hpush := reaches_push h.idle hspace v
  refine ⟨_, hpush.trans (reaches_pop (v := v) (update_self ..) ?_ ?_),
    ⟨?_, ?_, ?_, ?_, ?_⟩, ?_, ?_⟩
  all_goals
    simp [goto, setHead, setTail, setQueue, writeSlot, readSlot, SpmcStealQueue.write,
      SpmcStealQueue.read, SpmcStealQueue.index, hunpack, hadvance, h.head, h.items, h.lock,
      Slot.value?, UInt32.ofNat_add]

/-- An empty queue can be at every position. -/
theorem emptyAt_reached (sizes : Q → UInt32) (hsizes : ∀ q, ∃ k < 32, (sizes q).toNat = 2 ^ k)
    (mpmcCapacity : Nat) (t : Q) (v : V) (k : Nat) :
    ∃ s : SpmcSystem Q V,
      Reaches SpmcSystem.step FetchGuarded (.new sizes hsizes mpmcCapacity) s ∧ EmptyAt s t k ∧
      (s.queues t).capacity = sizes t ∧ s.mpmc = .new mpmcCapacity := by
  induction k with
  | zero =>
      have htail : (0 : UInt64) = packTail 0 0 := by decide
      exact ⟨_, .refl, ⟨rfl, rfl, htail, rfl, rfl⟩, rfl, rfl⟩
  | succ k ih =>
      obtain ⟨s, hrun, hempty, hcapacity, hmpmc⟩ := ih
      obtain ⟨s', hrun', hempty', hcapacity', hmpmc'⟩ := emptyAt_succ hempty v
      exact ⟨s', hrun.trans hrun', hempty', hcapacity'.trans hcapacity, hmpmc'.trans hmpmc⟩

/-- The next step of a thread in a fetch. -/
theorem step_fetching {pc : Pc Q V} (h : fetching pc = true) :
    (s.goto t pc).step (.advance t) = (s.goto t pc).advanceFetch t := by
  have hpc : (s.goto t pc).threads t = pc := update_self ..
  simp only [step, advancePush, advancePop, advanceSteal, hpc]
  cases pc with
  | fetchLoadHead | fetchLoadTail | fetchLen | fetchLock | fetchMove | fetchStore | fetchUnlock =>
      rfl
  | _ => cases h

/-- A fetch of two items into an empty queue comes to the sum for the second one. -/
theorem reaches_second_sum {k : Nat} (h : EmptyAt s t k) (hcapacity : (s.queues t).capacity = 2)
    (hmpmc : s.mpmc = .new 2) (v w : V) :
    ∃ s', Reaches SpmcSystem.step FetchGuarded s s' ∧
      s'.threads t = .fetchMove (UInt32.ofNat k) 2 1 ∧ s'.mpmc.items = [w] := by
  obtain ⟨b, hb⟩ : ∃ b : SpmcSystem Q V, b = { s with
    mpmc := ⟨[v, w], 2, le_rfl⟩, pushed := s.pushed ++ [v] ++ [w] } := ⟨_, rfl⟩
  have hunpack : unpackTail (s.queues t).tail = (UInt32.ofNat k, UInt32.ofNat k) := by
    rw [h.tail, unpackTail_packTail]
  have hfilled : Reaches SpmcSystem.step FetchGuarded s b := by
    have hone : Reaches SpmcSystem.step FetchGuarded s { s with
        mpmc := ⟨[v], 2, Nat.le_succ 1⟩, pushed := s.pushed ++ [v] } := by
      refine Reaches.refl.tail (.mpmcPush v) ⟨trivial, trivial⟩ ?_
      simp [step, h.lock, hmpmc, MpmcQueue.push, MpmcQueue.new]
    refine hone.tail (.mpmcPush w) ⟨trivial, trivial⟩ ?_
    simp [step, h.lock, MpmcQueue.push, hb]
  have hbegin : Reaches SpmcSystem.step FetchGuarded s (b.goto t .fetchLoadHead) := by
    refine hfilled.tail (.fetch t) ⟨trivial, trivial⟩ ?_
    simp [step, hb, h.idle]
  have htail := reaches_advance (b.goto t (.fetchLoadTail (UInt32.ofNat k))) hbegin
    (fun _ => ⟨trivial, trivial⟩) (by
      rw [step_fetching rfl]
      simp [advanceFetch, goto, hb, h.head])
  have hlen := reaches_advance (b.goto t (.fetchLen (UInt32.ofNat k) (s.queues t).tail)) htail
    (fun _ => ⟨trivial, trivial⟩) (by
      rw [step_fetching rfl]
      simp [advanceFetch, goto, hb])
  have hcount : (s.queues t).fetchCount (UInt32.ofNat k) (s.queues t).tail 2 = 2 := by
    rw [SpmcStealQueue.fetchCount, countInternal, hunpack, hcapacity, UInt32.sub_self]
    rfl
  have hlock := reaches_advance (b.goto t (.fetchLock (UInt32.ofNat k) 2)) hlen
    (fun _ => ⟨trivial, Or.inl (by rw [stealOf, realOf, hunpack])⟩) (by
      rw [step_fetching rfl]
      simp [advanceFetch, goto, hb, h.lock, hcount])
  have hfirst := reaches_advance
    ({ b with lock := some t }.goto t (.fetchMove (UInt32.ofNat k) 2 0)) hlock
    (fun _ => ⟨trivial, trivial⟩) (by
      rw [step_fetching rfl]
      simp [advanceFetch, goto, hb, h.lock])
  have hnext : (⟨[v, w], 2, le_rfl⟩ : MpmcQueue V).next = some (v, ⟨[w], 2, Nat.le_succ 1⟩) := rfl
  refine ⟨({ ({ b with lock := some t } : SpmcSystem Q V).writeSlot t
      ((s.queues t).index (UInt32.ofNat k)) v with mpmc := ⟨[w], 2, Nat.le_succ 1⟩ } :
      SpmcSystem Q V).goto t (.fetchMove (UInt32.ofNat k) 2 1),
    reaches_advance _ hfirst (fun _ => ⟨trivial, trivial⟩) ?_, update_self .., rfl⟩
  rw [step_fetching rfl]
  simp [advanceFetch, goto, writeSlot, setQueue, hb, hnext]

/-- After `2 ^ 32 - 1` pushes and pops the first queue is empty and its `head` is `u32::MAX`. A
fetch of two items copies the first of them, and computes `head + 1` for the second. -/
theorem fetch_sum_overflows :
    ∃ s : SpmcSystem (Fin 2) Nat,
      Reaches SpmcSystem.step FetchGuarded (.new twoSizes twoSizes_pow 2) s ∧
      s.threads 0 = .fetchMove 4294967295 2 1 ∧
      s.plainOps 0 = [.add 4294967295 1] ∧ ¬ (PlainOp.add 4294967295 1).Fits := by
  obtain ⟨s, hrun, hempty, hcapacity, hmpmc⟩ :=
    emptyAt_reached twoSizes twoSizes_pow 2 0 7 4294967295
  obtain ⟨s', hrun', hpc, hitems⟩ := reaches_second_sum hempty hcapacity hmpmc 8 9
  refine ⟨s', hrun.trans hrun', hpc, ?_, by decide⟩
  simp only [plainOps, hpc, hitems]
  decide

end Kyron.Proofs.Containers
