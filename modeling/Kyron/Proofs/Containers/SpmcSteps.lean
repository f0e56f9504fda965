import Kyron.Proofs.Containers.SpmcFrame
import Kyron.Proofs.Containers.SpmcMoves

/-!
# `Kyron.Proofs.Containers.SpmcSteps`: every step keeps the invariant

Every step of the owners keeps the invariant, under two conditions on single steps. `NoWrap`:
between a stealer's load of the tail and its compare-and-exchange the tail does not advance by
a whole `2 ^ 32`. `FetchFits`: `fetch_from` finds no steal in progress when it loads the tail,
or the `MpmcQueue` holds no more items than fit in front of `steal`.
-/

set_option autoImplicit false

namespace Kyron.Proofs.Containers

open Kyron.Containers
open Kyron.Lib
open scoped BigOperators
open Function
open SpmcSystem

variable {Q V : Type} [DecidableEq Q] [Fintype Q]
variable {s s' : SpmcSystem Q V} {t x : Q}

/-! ### The lock of the bounded queue -/

theorem SystemOk.not_holdsLock (h : SystemOk s) (hlock : s.lock = none) (u : Q) :
    holdsLock (s.threads u) = false := by
  have hiff := h.lock u
  rw [hlock] at hiff
  simpa using hiff

theorem SystemOk.not_holdsLock_of_ne (h : SystemOk s) (ht : holdsLock (s.threads t) = true) {u : Q}
    (hu : u ≠ t) : holdsLock (s.threads u) = false := by
  have hiff := h.lock u
  rw [(h.lock t).mpr ht, Option.some.injEq] at hiff
  simpa [hu.symm] using hiff

variable {pc' : Pc Q V} {i head dstHead start count size : UInt32} {v : V} {tail : UInt64}
variable {divider : UInt8} {since : Nat}

/-- The lock is taken. -/
theorem SystemOk.lock_taken (h : SystemOk s) (hlock : s.lock = none) (hpc' : holdsLock pc' = true)
    (u : Q) : some t = some u ↔ holdsLock (Function.update s.threads t pc' u) = true := by
  by_cases hu : u = t
  · subst hu
    simp [hpc']
  · simp [hu, Ne.symm hu, h.not_holdsLock hlock u]

/-- The lock is released. -/
theorem SystemOk.lock_released (h : SystemOk s) (ht : holdsLock (s.threads t) = true)
    (hpc' : holdsLock pc' = false) (u : Q) :
    none = some u ↔ holdsLock (Function.update s.threads t pc' u) = true := by
  by_cases hu : u = t
  · subst hu
    simp [hpc']
  · simp [hu, h.not_holdsLock_of_ne ht hu]

omit [DecidableEq Q] [Fintype Q] in
theorem freeSpace_le (m : MpmcQueue V) : m.freeSpace.toNat + m.items.length ≤ m.capacity := by
  have hle := m.length_le
  have hmod : m.freeSpace.toNat ≤ m.capacity - m.items.length := by
    rw [MpmcQueue.freeSpace, UInt32.toNat_ofNat']
    exact Nat.mod_le _ _
  omega

/-! ### The steps of a push -/

theorem SystemOk.pcOk_of_detached (h : SystemOk s) {pc : Pc Q V} (hd : Detached t pc)
    (hspare : spare pc = 0) : PcOk s t pc :=
  hd.pcOk (h.room_le t) (by rw [hspare, Nat.zero_add]; exact s.mpmc.length_le)

/-- The owner's own step to a place at which it holds nothing. -/
theorem SystemOk.goto_detached (h : SystemOk s) {pc : Pc Q V} (hpc : s.threads t = pc)
    (hd : Detached t pc') (hspare : spare pc' = 0) (hsame : SameHolding pc pc')
    (hlock : holdsLock pc' = holdsLock pc) : SystemOk (s.goto t pc') :=
  h.goto hpc (h.pcOk_of_detached hd hspare) hsame hlock

omit [DecidableEq Q] [Fintype Q] in
theorem exists_push {m : MpmcQueue V} (v : V) (hlen : m.items.length < m.capacity) :
    ∃ m', m.push v = some m' ∧ m'.items = m.items ++ [v] ∧ m'.capacity = m.capacity := by
  unfold MpmcQueue.push
  rw [dif_neg hlen.ne]
  exact ⟨_, rfl, rfl, rfl⟩

theorem mem_regions_of_own (hi : i ∈ ownSlots (s.queues t).accessMask (s.threads t)) :
    i ∈ regions s t :=
  Multiset.mem_add.mpr (Or.inl (Multiset.mem_add.mpr (Or.inr (Multiset.mem_coe.mpr hi))))

theorem mem_regions_of_source (hi : i ∈ sourceSlots x (s.queues x).accessMask (s.threads t)) :
    i ∈ regions s x :=
  Multiset.mem_add.mpr (Or.inr
    (Multiset.mem_sum.mpr ⟨t, Finset.mem_univ t, Multiset.mem_coe.mpr hi⟩))

omit [DecidableEq Q] [Fintype Q] in
theorem next_eq_some {m m' : MpmcQueue V} (h : m.next = some (v, m')) :
    m.items = v :: m'.items ∧ m'.capacity = m.capacity := by
  unfold MpmcQueue.next at h
  split at h
  · cases h
  · rename_i hitems
    cases h
    exact ⟨hitems, rfl⟩

omit [Fintype Q] in
/-- The owner reads the first of its own slots: that slot leaves its region, and no other region
changes. -/
theorem ownSlots_read {q' : SpmcStealQueue V} {a' : Nat} (hs : Shape s s' t t q' a' pc')
    (hown : ownSlots (s.queues t).accessMask (s.threads t) =
      i :: ownSlots (s.queues t).accessMask pc')
    (hsource : ∀ y m, sourceSlots y m (s.threads t) = sourceSlots y m pc') (y : Q) :
    (if y = t then {i} else (0 : Multiset UInt32)) +
        ((ownSlots (s.queues y).accessMask (s'.threads y) : Multiset UInt32) +
          (sourceSlots y (s.queues y).accessMask pc' : Multiset UInt32)) =
      (ownSlots (s.queues y).accessMask (s.threads y) : Multiset UInt32) +
        (sourceSlots y (s.queues y).accessMask (s.threads t) : Multiset UInt32) := by
  rw [hsource]
  by_cases hy : y = t
  · subst hy
    rw [hs.thread_self, if_pos rfl, hown, ← add_assoc, Multiset.singleton_add, Multiset.cons_coe]
  · rw [hs.thread_ne hy, if_neg hy, zero_add]

/-- One item moves from the queue to the bounded queue. -/
theorem overflowMove_ok (h : SystemOk s) {counter : UInt32} {left successful : Nat}
    (hpc : s.threads t = .overflowMove v counter (left + 1) successful)
    (hstep : (match ((s.queues t).data ((s.queues t).index counter)).value? with
      | none => some ((s.readSlot t ((s.queues t).index counter)).goto t .panicked)
      | some item =>
          match s.mpmc.push item with
          | none => some ((s.readSlot t ((s.queues t).index counter)).goto t
              (.overflowUnlock v successful))
          | some mpmc => some ({ s.readSlot t ((s.queues t).index counter) with mpmc }.goto t
              (.overflowMove v ((s.queues t).index counter + 1) left (successful + 1)))) =
      some s') : SystemOk s' := by
  obtain ⟨q, hq⟩ : ∃ q, q = s.queues t := ⟨_, rfl⟩
  have hok := h.thread t
  rw [hpc] at hok
  have hspare : left + 1 + s.mpmc.items.length ≤ s.mpmc.capacity := hok.spare
  have hholds : holdsLock (s.threads t) = true := by
    rw [hpc]
    rfl
  have hown : ownSlots q.accessMask (s.threads t) =
      q.index counter :: ringSlots q.accessMask (q.index counter + 1) left := by
    rw [hpc, ownSlots, ringSlots_succ, SpmcStealQueue.index,
      ringSlots_and_mask_add q.capacity_pow q.accessMask_eq]
  obtain ⟨item, hfull⟩ :=
    h.exists_full (mem_regions_of_own (by rw [← hq, hown]; exact List.mem_cons_self))
  -- The lock has kept the free space since it was read, so the push cannot fail.
  obtain ⟨mpmc, hpush, hitems, hcapacity⟩ := exists_push item (show _ < s.mpmc.capacity by omega)
  have hlen : mpmc.items.length = s.mpmc.items.length + 1 := by
    rw [hitems, List.length_append, List.length_singleton]
  have hvalue : ((s.queues t).data (q.index counter)).value? = some item := by
    rw [hfull]
    rfl
  rw [← hq] at hstep hvalue
  simp only [hvalue, hpush, Option.some.injEq] at hstep
  subst hstep
  have hs : Shape s ({ s.readSlot t (q.index counter) with mpmc }.goto t
      (.overflowMove v (q.index counter + 1) left (successful + 1))) t t
      ((s.queues t).read (q.index counter)) (s.advanced t)
      (.overflowMove v (q.index counter + 1) left (successful + 1)) :=
    ⟨rfl, (update_eq_self t s.advanced).symm, rfl⟩
  refine h.read hs (by rw [← hq]; exact hvalue)
    (ownSlots_read hs (by rw [← hq]; exact hown) (by rw [hpc]; intros; rfl)) (fun u hu => ?_)
    (Detached.pcOk {} ?_ ?_) (by rw [hpc]; intros; rfl) rfl (by rw [hpc]; rfl) ?_ rfl
    (lock_frame h.lock rfl rfl (by rw [hpc]; rfl))
  · show spare (s.threads u) + mpmc.items.length ≤ mpmc.capacity
    rw [spare_eq_zero (h.not_holdsLock_of_ne hholds hu)]
    omega
  · rw [hs.queue_self]
    exact h.room_le t
  · show left + mpmc.items.length ≤ mpmc.capacity
    omega
  · rw [hpc]
    show {item} + 0 + (s.mpmc.items : Multiset V) + s.popped = 0 + mpmc.items + s.popped
    rw [hitems, ← Multiset.coe_add, add_zero, zero_add, add_comm ({item} : Multiset V)]
    rfl

/-- The owner writes the value into the slot at `head`. -/
theorem pushWrite_ok (h : SystemOk s) (hpc : s.threads t = .pushWrite v head) :
    SystemOk ((s.writeSlot t ((s.queues t).index head) v).goto t (.pushStore v head)) := by
  have hok := h.thread t
  rw [hpc] at hok
  have hhead : head = (s.queues t).head := hok.head head rfl
  have hroom : stolen (s.queues t) + live (s.queues t) + 0 < (s.queues t).capacity.toNat :=
    hok.room
  have hfree := h.index_not_mem_regions hroom (by rw [hpc]; rfl)
  rw [show UInt32.ofNat 0 = 0 from rfl, UInt32.add_zero, ← hhead] at hfree
  have hs : Shape s ((s.writeSlot t ((s.queues t).index head) v).goto t (.pushStore v head)) t t
      ((s.queues t).write ((s.queues t).index head) v) (s.advanced t) (.pushStore v head) :=
    ⟨rfl, (update_eq_self t s.advanced).symm, rfl⟩
  refine h.write hs hfree ?_ (by rw [hpc]; intros; rfl) (fun u _ => h.spare_le u) ?_
    (by rw [hpc]; intros; rfl) ?_ rfl (lock_frame h.lock rfl rfl (by rw [hpc]; rfl))
  · rw [hpc, ownSlots, ringSlots_one]
    rfl
  · refine ⟨?_, ?_, trivial, ?_, trivial, hok.spare⟩
    · rw [hs.queue_self]
      exact hok.head
    · rw [hs.queue_self]
      exact hok.room
    · rw [hs.queue_self]
      exact if_pos rfl
  · rw [hpc]
    show (s.pushed : Multiset V) + {v} + 0 + _ + _ = s.pushed + 0 + {v} + 0 + _ + _
    rw [add_zero, add_zero, add_zero]
    rfl

/-- The owner takes the items that it moves to the `MpmcQueue`. -/
theorem overflowExchange_ok (h : SystemOk s) {free : UInt32}
    (hpc : s.threads t = .overflowExchange v head free tail) (hstep : s.advancePush t = some s') :
    SystemOk s' := by
  have hok := h.thread t
  rw [hpc] at hok
  have hhead : head = (s.queues t).head := hok.head head rfl
  simp only [advancePush, hpc] at hstep
  split at hstep
  · rename_i htail
    cases hstep
    obtain ⟨hfree, hlive⟩ := overflowCount_le head tail free none
    have hspare : free.toNat + s.mpmc.items.length ≤ s.mpmc.capacity := hok.spare
    subst htail
    refine h.take (by rw [hhead] at hlive; rw [hhead]; exact hlive) {} ?_ ?_ rfl ?_ ?_ ?_ ?_ ?_
    · exact (Nat.add_le_add_right hfree _).trans hspare
    all_goals
      rw [hpc]
      intros
      rfl
  · cases hstep
    exact h.goto hpc ⟨hok.head, hok.room, trivial, trivial, trivial, hok.spare⟩ {} rfl

/-- The steps of `push`, one lemma for each place that changes a word or a slot. -/
theorem advancePush_ok (h : SystemOk s) (hpush : s.advancePush t = some s') : SystemOk s' := by
  have hok := h.thread t
  have hstep := hpush
  unfold advancePush at hstep
  cases hpc : s.threads t with
  | pushLoadHead v retry =>
      rw [hpc] at hstep hok
      cases hstep
      exact h.goto hpc ⟨fun _ hm => (Option.some.inj hm).symm, hok.room, trivial, trivial, trivial,
        hok.spare⟩ {} rfl
  | pushLoadTail v retry head =>
      rw [hpc] at hstep hok
      have hhead : head = (s.queues t).head := hok.head head rfl
      dsimp only at hstep
      split at hstep
      · -- Others only make more room, so the space is still there when the slot is written.
        rename_i hspace
        cases hstep
        rw [hhead, hasSpace_iff (h.room_le t)] at hspace
        exact h.goto hpc ⟨hok.head, hspace, trivial, trivial, trivial, hok.spare⟩ {} rfl
      · split at hstep
        all_goals
          cases hstep
          exact h.goto_detached hpc {} rfl {} rfl
  | pushWrite v head =>
      rw [hpc] at hstep
      cases hstep
      exact pushWrite_ok h hpc
  | pushStore v head =>
      rw [hpc] at hstep hok
      cases hstep
      have hhead : head = (s.queues t).head := hok.head head rfl
      rw [hhead]
      refine h.publish hok.room (by rw [hpc, hhead]; rfl) {} ?_ (fun _ => rfl)
        (by rw [hpc]; intros; rfl) (by rw [hpc]; intros; rfl) (by rw [hpc]; rfl) ?_
        (by rw [hpc]; rfl)
      · exact hok.spare
      · rw [hpc]
        show ((s.pushed ++ [v] : List V) : Multiset V) + 0 = s.pushed + {v}
        rw [add_zero, ← Multiset.coe_add]
        rfl
  | overflowLoadHead v =>
      rw [hpc] at hstep hok
      cases hstep
      exact h.goto hpc ⟨fun _ hm => (Option.some.inj hm).symm, hok.room, trivial, trivial, trivial,
        hok.spare⟩ {} rfl
  | overflowLock v head =>
      rw [hpc] at hstep hok
      obtain ⟨hlock, rfl⟩ := Option.ite_some_none_eq_some.mp hstep
      exact h.gotoLock hpc ⟨hok.head, hok.room, trivial, trivial, trivial, freeSpace_le s.mpmc⟩ {}
        (h.lock_taken hlock rfl)
  | overflowLoadTail v head free =>
      rw [hpc] at hstep hok
      cases hstep
      exact h.goto hpc ⟨hok.head, hok.room, trivial, trivial, trivial, hok.spare⟩ {} rfl
  | overflowExchange v head free tail => exact overflowExchange_ok h hpc hpush
  | overflowMove v counter left successful =>
      cases left with
      | zero =>
          rw [hpc] at hstep
          cases hstep
          exact h.goto_detached hpc {} rfl {} rfl
      | succ left =>
          rw [hpc] at hstep
          exact overflowMove_ok h hpc hstep
  | overflowUnlock v successful =>
      rw [hpc] at hstep hok
      have hholds : holdsLock (s.threads t) = true := by
        rw [hpc]
        rfl
      dsimp only at hstep
      split at hstep
      all_goals
        cases hstep
        exact h.gotoLock hpc (h.pcOk_of_detached {} rfl) {} (h.lock_released hholds rfl)
  | _ =>
      rw [hpc] at hstep
      cases hstep

/-! ### The steps of a pop -/

theorem popRead_ok (h : SystemOk s) (hpc : s.threads t = .popRead i)
    (hstep : (match ((s.queues t).data i).value? with
      | none => some ((s.readSlot t i).goto t .panicked)
      | some v => some { (s.readSlot t i).goto t .idle with popped := s.popped ++ [v] }) =
      some s') : SystemOk s' := by
  have hok := h.thread t
  rw [hpc] at hok
  obtain ⟨v, hfull⟩ :=
    h.exists_full (mem_regions_of_own (i := i) (by rw [hpc]; exact List.mem_cons_self))
  have hvalue : ((s.queues t).data i).value? = some v := by
    rw [hfull]
    rfl
  simp only [hvalue, Option.some.injEq] at hstep
  subst hstep
  have hs : Shape s { (s.readSlot t i).goto t .idle with popped := s.popped ++ [v] } t t
      ((s.queues t).read i) (s.advanced t) .idle :=
    ⟨rfl, (update_eq_self t s.advanced).symm, rfl⟩
  refine h.read hs hvalue
    (ownSlots_read hs (by rw [hpc]; rfl) (by rw [hpc]; intros; rfl)) (fun u _ => h.spare_le u)
    (Detached.pcOk {} ?_ hok.spare) (by rw [hpc]; intros; rfl) rfl (by rw [hpc]; rfl) ?_ rfl
    (lock_frame h.lock rfl rfl (by rw [hpc]; rfl))
  · rw [hs.queue_self]
    exact h.room_le t
  · rw [hpc]
    show {v} + 0 + (s.mpmc.items : Multiset V) + s.popped =
      0 + s.mpmc.items + ((s.popped ++ [v] : List V) : Multiset V)
    rw [← Multiset.coe_add, Multiset.coe_singleton, add_zero, zero_add, add_assoc, add_comm,
      add_assoc]

/-- The steps of `pop`. -/
theorem advancePop_ok (h : SystemOk s) (hstep : s.advancePop t = some s') : SystemOk s' := by
  have hok := h.thread t
  unfold advancePop at hstep
  cases hpc : s.threads t with
  | popLoadTail =>
      rw [hpc] at hstep
      cases hstep
      exact h.goto_detached hpc {} rfl {} rfl
  | popLoadHead tail =>
      rw [hpc] at hstep hok
      dsimp only at hstep
      split at hstep
      · cases hstep
        exact h.goto_detached hpc {} rfl {} rfl
      · rename_i hne
        cases hstep
        exact h.goto hpc ⟨fun _ hm => (Option.some.inj hm).symm, hok.room, hne, trivial, trivial,
          hok.spare⟩ {} rfl
  | popExchange tail head =>
      rw [hpc] at hstep hok
      have hhead : head = (s.queues t).head := hok.head head rfl
      have hne : head ≠ realOf tail := hok.locals
      dsimp only at hstep
      split at hstep
      · rename_i htail
        cases hstep
        subst htail
        -- The tail is the one compared with `head` before the exchange.
        have hlive : live (s.queues t) ≠ 0 := by
          intro h0
          rw [hhead] at hne
          exact hne (Lib.dist_eq_zero.mp h0).symm
        refine h.take (n := 1) (Nat.one_le_iff_ne_zero.mpr hlive) {} hok.spare ?_ ?_ ?_ ?_ ?_ ?_ ?_
        · rw [hpc]
          intros
          rfl
        · exact (ringSlots_one _ _).symm
        all_goals
          rw [hpc]
          intros
          rfl
      · cases hstep
        exact h.goto_detached hpc {} rfl {} rfl
  | popRead i =>
      rw [hpc] at hstep
      exact popRead_ok h hpc hstep
  | _ =>
      rw [hpc] at hstep
      cases hstep

/-! ### The steps of a steal -/

/-- A stealer reads the next slot that it has claimed. -/
theorem stealRead_ok (h : SystemOk s) {i : Nat}
    (hpc : s.threads t = .stealRead x dstHead start count i)
    (hstep : (match ((s.queues x).data ((s.queues x).index (start + UInt32.ofNat i))).value? with
      | none => some ((s.readSlot x ((s.queues x).index (start + UInt32.ofNat i))).goto t .panicked)
      | some v => some ((s.readSlot x ((s.queues x).index (start + UInt32.ofNat i))).goto t
          (.stealWrite x dstHead start count i v))) = some s') : SystemOk s' := by
  obtain ⟨q, hq⟩ : ∃ q, q = s.queues x := ⟨_, rfl⟩
  have hok := h.thread t
  rw [hpc] at hok
  obtain ⟨hxt, hi⟩ : x ≠ t ∧ i < count.toNat := hok.locals
  have hslots : ringSlots q.accessMask (start + UInt32.ofNat i) (count.toNat - i) =
      q.index (start + UInt32.ofNat i) ::
        ringSlots q.accessMask (start + UInt32.ofNat (i + 1)) (count.toNat - (i + 1)) := by
    rw [show count.toNat - i = count.toNat - (i + 1) + 1 by omega, ringSlots_succ,
      UInt32.ofNat_add, UInt32.add_assoc]
    rfl
  have hsource : sourceSlots x q.accessMask (s.threads t) =
      ringSlots q.accessMask (start + UInt32.ofNat i) (count.toNat - i) := by
    rw [hpc, sourceSlots, if_pos rfl]
  obtain ⟨v, hfull⟩ := h.exists_full (x := x) (i := q.index (start + UInt32.ofNat i))
    (mem_regions_of_source (t := t) (by rw [← hq, hsource, hslots]; exact List.mem_cons_self))
  have hvalue : ((s.queues x).data (q.index (start + UInt32.ofNat i))).value? = some v := by
    rw [hfull]
    rfl
  rw [← hq] at hstep hvalue
  simp only [hvalue, Option.some.injEq] at hstep
  subst hstep
  have hs : Shape s ((s.readSlot x (q.index (start + UInt32.ofNat i))).goto t
      (.stealWrite x dstHead start count i v)) t x
      ((s.queues x).read (q.index (start + UInt32.ofNat i))) (s.advanced x)
      (.stealWrite x dstHead start count i v) :=
    ⟨rfl, (update_eq_self x s.advanced).symm, rfl⟩
  refine h.read hs (by rw [← hq]; exact hvalue) (fun y => ?_) (fun u _ => h.spare_le u) ?_
    (by rw [hpc]; intros; rfl) rfl (by rw [hpc]; rfl) ?_ rfl
    (lock_frame h.lock rfl rfl (by rw [hpc]; rfl))
  · by_cases hy : y = x
    · subst hy
      rw [hs.thread_ne hxt, if_pos rfl, ← hq, hsource, hslots, sourceSlots, if_pos rfl,
        add_left_comm]
      rfl
    · rw [if_neg hy, zero_add, hpc, sourceSlots, sourceSlots, if_neg (Ne.symm hy),
        if_neg (Ne.symm hy)]
      by_cases hyt : y = t
      · subst hyt
        rw [hs.thread_self, hpc]
        rfl
      · rw [hs.thread_ne hyt]
  · refine ⟨?_, ?_, hok.locals, trivial, ?_, hok.spare⟩
    · rw [hs.queue_ne hxt.symm]
      exact hok.head
    · rw [hs.queue_ne hxt.symm]
      exact hok.room
    · have hknown := hok.source
      show start = _ ∧ _
      rw [hs.queue_self]
      exact hknown
  · rw [hpc]
    show {v} + 0 + (s.mpmc.items : Multiset V) + s.popped = {v} + s.mpmc.items + s.popped
    rw [add_zero]

/-- The place of a stealer that has written its slot `i`: one slot more is its own, and it has
nothing in hand. -/
structure AfterWrite (m : UInt32) (t : Q) (dstHead count : UInt32) (i : Nat) (pc pc' : Pc Q V) :
    Prop where
  own : ownSlots m pc' = ringSlots m dstHead (i + 1)
  source : ∀ y m, sourceSlots y m pc' = sourceSlots y m pc
  claim : ∀ y, claimCount y pc' = claimCount y pc
  locals : LocalOk t pc'
  known : ∀ q, OwnOk q pc'
  hand : inHand pc' = 0 := by rfl
  unpublished : unpublished pc' = 0 := by rfl
  lock : holdsLock pc' = false := by rfl
  spare : spare pc' = 0 := by rfl
  head : ownHead pc' = some dstHead := by rfl
  reserved : reserved pc' = count.toNat := by rfl

/-- A stealer writes the value that it has read. -/
theorem SystemOk.stealWrite (h : SystemOk s) {i : Nat}
    (hpc : s.threads t = .stealWrite x dstHead start count i v)
    (hafter : AfterWrite (s.queues t).accessMask t dstHead count i (s.threads t) pc')
    (hsource : SourceOk
      ((s.writeSlot t ((s.queues t).index (dstHead + UInt32.ofNat i)) v).goto t pc') pc') :
    SystemOk ((s.writeSlot t ((s.queues t).index (dstHead + UInt32.ofNat i)) v).goto t pc') := by
  have hok := h.thread t
  rw [hpc] at hok
  obtain ⟨hxt, hi⟩ : x ≠ t ∧ i < count.toNat := hok.locals
  have hhead : dstHead = (s.queues t).head := hok.head dstHead rfl
  have hroom : stolen (s.queues t) + live (s.queues t) + i < (s.queues t).capacity.toNat :=
    (Nat.add_lt_add_left hi _).trans_le hok.room
  have hfree := h.index_not_mem_regions hroom (by rw [hpc, hhead]; rfl)
  rw [← hhead] at hfree
  have hs : Shape s
      ((s.writeSlot t ((s.queues t).index (dstHead + UInt32.ofNat i)) v).goto t pc') t t
      ((s.queues t).write ((s.queues t).index (dstHead + UInt32.ofNat i)) v) (s.advanced t) pc' :=
    ⟨rfl, (update_eq_self t s.advanced).symm, rfl⟩
  refine h.write hs hfree ?_ hafter.source (fun u _ => h.spare_le u) ?_ hafter.claim ?_ rfl
    (lock_frame h.lock rfl rfl (by rw [hafter.lock, hpc]; rfl))
  · rw [hafter.own, ringSlots_concat, hpc, ownSlots, ← Multiset.coe_add, add_comm]
    rfl
  · refine ⟨?_, ?_, hafter.locals, hafter.known _, hsource, ?_⟩
    · rw [hafter.head, hs.queue_self]
      exact hok.head
    · rw [hafter.reserved, hs.queue_self]
      exact hok.room
    · rw [hafter.spare]
      exact hok.spare
  · rw [hafter.hand, hafter.unpublished, hpc]
    show (s.pushed : Multiset V) + 0 + {v} + s.mpmc.items + s.popped =
      s.pushed + 0 + {v} + 0 + s.mpmc.items + s.popped
    rw [add_zero, add_zero]

theorem stealWrite_ok (h : SystemOk s) {i : Nat}
    (hpc : s.threads t = .stealWrite x dstHead start count i v)
    (hstep : (if i + 1 < count.toNat then
        some ((s.writeSlot t ((s.queues t).index (dstHead + UInt32.ofNat i)) v).goto t
          (.stealRead x dstHead start count (i + 1)))
      else
        some ((s.writeSlot t ((s.queues t).index (dstHead + UInt32.ofNat i)) v).goto t
          (.stealReload x dstHead count))) = some s') : SystemOk s' := by
  have hok := h.thread t
  rw [hpc] at hok
  obtain ⟨hxt, hi⟩ : x ≠ t ∧ i < count.toNat := hok.locals
  split at hstep
  · rename_i hmore
    cases hstep
    have hafter : AfterWrite (s.queues t).accessMask t dstHead count i (s.threads t)
        (.stealRead x dstHead start count (i + 1)) :=
      { own := rfl
        source := by rw [hpc]; exact fun _ _ => rfl
        claim := by rw [hpc]; exact fun _ => rfl
        locals := ⟨hxt, hmore⟩
        known := fun _ => trivial }
    refine h.stealWrite hpc hafter ?_
    have hknown : start = (s.queues x).index (stealOf (s.queues x).tail) ∧
        count.toNat ≤ stolen (s.queues x) := hok.source
    show start = (Function.update s.queues t _ x).index _ ∧ _
    simpa [goto, writeSlot, setQueue, hxt] using hknown
  · rename_i hlast
    have hcount : count.toNat = i + 1 := by omega
    cases hstep
    -- Nothing of the claim is left to read.
    have hleft : ∀ y m, sourceSlots y m (s.threads t) = [] := by
      intro y m
      rw [hpc]
      show (if x = y then ringSlots m _ (count.toNat - (i + 1)) else []) = []
      rw [hcount, Nat.sub_self, ringSlots_zero, ite_self]
    have hafter : AfterWrite (s.queues t).accessMask t dstHead count i (s.threads t)
        (.stealReload x dstHead count) :=
      { own := by rw [ownSlots, hcount]
        source := fun y m => (hleft y m).symm
        claim := by rw [hpc]; exact fun _ => rfl
        locals := hxt
        known := fun _ => trivial }
    exact h.stealWrite hpc hafter trivial

/-! ### The conditions on steps -/

/-- Between a stealer's load of the tail and its compare-and-exchange the tail does not advance
by a whole `2 ^ 32`. -/
def NoWrapAt (s : SpmcSystem Q V) : Pc Q V → Prop
  | .stealExchange src _ _ _ _ since _ => s.advanced src < since + 2 ^ 32
  | _ => True

def NoWrap (s : SpmcSystem Q V) : SpmcAction Q V → Prop
  | .advance t => NoWrapAt s (s.threads t)
  | _ => True

/-- When `fetch_from` asks for the length of the `MpmcQueue`, the tail that it has loaded shows
no steal in progress, or the items fit in front of `steal`. -/
def FetchFitsAt (s : SpmcSystem Q V) (t : Q) : Pc Q V → Prop
  | .fetchLen head tail =>
      stealOf tail = realOf tail ∨
        s.mpmc.items.length + dist (stealOf tail) head ≤ (s.queues t).capacity.toNat
  | _ => True

def FetchFits (s : SpmcSystem Q V) : SpmcAction Q V → Prop
  | .advance t => FetchFitsAt s t (s.threads t)
  | _ => True

/-- A stealer looks whether there is something to take. -/
theorem stealLoadHead_ok (h : SystemOk s)
    (hpc : s.threads t = .stealLoadHead x dstHead size divider tail since)
    (hstep : s.advanceSteal t = some s') : SystemOk s' := by
  have hok := h.thread t
  rw [hpc] at hok
  obtain ⟨hsince, hreal⟩ : since ≤ s.advanced x ∧ realOf tail = UInt32.ofNat since := hok.source
  obtain ⟨hsrc, hsize⟩ : x ≠ t ∧ 0 < size.toNat := hok.locals
  simp only [advanceSteal, hpc] at hstep
  split at hstep
  · cases hstep
    exact h.goto_detached hpc {} rfl {} rfl
  rename_i hne
  split at hstep
  · cases hstep
    exact h.goto_detached hpc {} rfl {} rfl
  rename_i hsteal
  split at hstep
  · cases hstep
    exact h.goto_detached hpc {} rfl {} rfl
  · cases hstep
    refine h.goto hpc ⟨hok.head, hok.room, ⟨hsrc, hsize, hne, not_not.mp hsteal⟩, trivial,
      ⟨hsince, hreal, fun hsame => ?_⟩, hok.spare⟩ {} rfl
    -- If the tail has not moved since it was loaded, the items counted are the live ones.
    rw [hreal, ← hsame, ← h.real x]
    rfl

/-- A tail that is still the word that was loaded has not moved, if it has not gone round. -/
theorem SystemOk.advanced_eq (h : SystemOk s) (hsince : since ≤ s.advanced x)
    (hreal : realOf tail = UInt32.ofNat since) (hwrap : s.advanced x < since + 2 ^ 32)
    (htail : (s.queues x).tail = tail) : s.advanced x = since := by
  have hnow := h.real x
  rw [htail, hreal] at hnow
  have hmod := congrArg UInt32.toNat hnow
  rw [UInt32.toNat_ofNat', UInt32.toNat_ofNat'] at hmod
  omega

/-- A stealer claims at least one item, at most those that are there, and at most those that fit
into its own queue. -/
theorem SystemOk.stealCount_le (h : SystemOk s) (hguard : NoWrap s (.advance t))
    (hpc : s.threads t = .stealExchange x dstHead size divider tail since head)
    (htail : (s.queues x).tail = tail) : 0 < (stealCount head tail size divider).toNat ∧
      (stealCount head tail size divider).toNat ≤ live (s.queues x) ∧
      (stealCount head tail size divider).toNat ≤ size.toNat := by
  have hok := h.thread t
  rw [hpc] at hok
  have hwrap : NoWrapAt s (s.threads t) := hguard
  rw [hpc] at hwrap
  obtain ⟨hsince, hreal, hlive⟩ : since ≤ s.advanced x ∧ realOf tail = UInt32.ofNat since ∧
    (s.advanced x = since → dist (realOf tail) head ≤ live (s.queues x)) := hok.source
  obtain ⟨hpos, hthere, hspace⟩ := stealCount_bounds divider hok.locals.2.2.1 hok.locals.2.1
  exact ⟨hpos, hthere.trans (hlive (h.advanced_eq hsince hreal hwrap htail)), hspace⟩

/-- A stealer claims its items. -/
theorem stealExchange_ok (h : SystemOk s) (hguard : NoWrap s (.advance t))
    (hpc : s.threads t = .stealExchange x dstHead size divider tail since head)
    (hstep : s.advanceSteal t = some s') : SystemOk s' := by
  have hok := h.thread t
  rw [hpc] at hok
  obtain ⟨hsrc, hsize, hne, hsteal⟩ : x ≠ t ∧ 0 < size.toNat ∧ head ≠ realOf tail ∧
    stealOf tail = realOf tail := hok.locals
  simp only [advanceSteal, hpc] at hstep
  split at hstep
  · rename_i htail
    obtain ⟨hpos, hthere, hspace⟩ := h.stealCount_le hguard hpc htail
    rw [if_neg (by intro h0; rw [h0] at hpos; exact absurd hpos (by decide))] at hstep
    cases hstep
    subst htail
    exact h.claim hpc (stolen_eq_zero.mpr hsteal) hpos hthere hspace
  · cases hstep
    exact h.goto hpc ⟨hok.head, hok.room, ⟨hsrc, hsize⟩, trivial, ⟨le_rfl, h.real x⟩, hok.spare⟩
      {} rfl

/-- The steps of `steal_into`. The guard is for the compare of the tail. -/
theorem advanceSteal_ok (h : SystemOk s) (hguard : NoWrap s (.advance t))
    (hsteal : s.advanceSteal t = some s') : SystemOk s' := by
  have hok := h.thread t
  have hstep := hsteal
  unfold advanceSteal at hstep
  cases hpc : s.threads t with
  | stealLoadDstHead src divider =>
      rw [hpc] at hstep hok
      cases hstep
      exact h.goto hpc ⟨fun _ hm => (Option.some.inj hm).symm, hok.room, hok.locals, trivial,
        trivial, hok.spare⟩ {} rfl
  | stealLoadDstTail src divider dstHead =>
      rw [hpc] at hstep hok
      have hhead : dstHead = (s.queues t).head := hok.head dstHead rfl
      have havail : (dstHead - (unpackTail (s.queues t).tail).1).toNat =
          stolen (s.queues t) + live (s.queues t) := by
        rw [hhead]
        exact dist_steal_head (h.room_le t)
      dsimp only at hstep
      split at hstep
      · cases hstep
        exact h.goto_detached hpc {} rfl {} rfl
      · rename_i hlt
        cases hstep
        rw [ge_iff_le, UInt32.not_le] at hlt
        have hsize := UInt32.toNat_sub_of_le _ _ (UInt32.le_of_lt hlt)
        rw [UInt32.lt_iff_toNat_lt] at hlt
        refine h.goto hpc ⟨hok.head, ?_, ⟨hok.locals, ?_⟩, trivial, trivial, hok.spare⟩ {} rfl
        · rw [reserved, hsize]
          omega
        · rw [hsize]
          omega
  | stealLoadTail src dstHead size divider =>
      rw [hpc] at hstep hok
      cases hstep
      exact h.goto hpc
        ⟨hok.head, hok.room, hok.locals, trivial, ⟨le_rfl, h.real src⟩, hok.spare⟩ {} rfl
  | stealLoadHead src dstHead size divider tail since => exact stealLoadHead_ok h hpc hsteal
  | stealExchange src dstHead size divider tail since head =>
      exact stealExchange_ok h hguard hpc hsteal
  | stealRead src dstHead start count i =>
      rw [hpc] at hstep
      exact stealRead_ok h hpc hstep
  | stealWrite src dstHead start count i v =>
      rw [hpc] at hstep
      exact stealWrite_ok h hpc hstep
  | stealReload src dstHead count =>
      rw [hpc] at hstep hok
      cases hstep
      exact h.goto hpc ⟨hok.head, hok.room, hok.locals, trivial, trivial, hok.spare⟩ {} rfl
  | stealAlign src dstHead count tail =>
      rw [hpc] at hstep hok
      dsimp only at hstep
      split at hstep
      · rename_i htail
        cases hstep
        subst htail
        exact h.align hpc
      · cases hstep
        exact h.goto hpc ⟨hok.head, hok.room, hok.locals, trivial, trivial, hok.spare⟩ {} rfl
  | stealStore dstHead count =>
      rw [hpc] at hstep hok
      cases hstep
      have hhead : dstHead = (s.queues t).head := hok.head dstHead rfl
      rw [hhead, ← UInt32.ofNat_toNat (x := count)]
      exact h.publish hok.room (by rw [hpc, hhead]; rfl) {} hok.spare (fun _ => rfl)
        (by rw [hpc]; intros; rfl) (by rw [hpc]; intros; rfl) (by rw [hpc]; rfl)
        (by rw [hpc]; rfl) (by rw [hpc]; rfl)
  | _ =>
      rw [hpc] at hstep
      cases hstep

/-! ### The steps of a fetch -/

/-- The owner copies the oldest item of the `MpmcQueue` into its next slot. -/
theorem fetchMove_ok (h : SystemOk s) {possible items : Nat} {mpmc : MpmcQueue V}
    (hpc : s.threads t = .fetchMove head possible items) (hlt : items < possible)
    (hnext : s.mpmc.next = some (v, mpmc)) :
    SystemOk ({ s.writeSlot t ((s.queues t).index (head + UInt32.ofNat items)) v with mpmc }.goto t
      (.fetchMove head possible (items + 1))) := by
  have hok := h.thread t
  rw [hpc] at hok
  have hhead : head = (s.queues t).head := hok.head head rfl
  have hroom : stolen (s.queues t) + live (s.queues t) + items < (s.queues t).capacity.toNat :=
    (Nat.add_lt_add_left hlt _).trans_le hok.room
  have hfree := h.index_not_mem_regions hroom (by rw [hpc, hhead]; rfl)
  rw [← hhead] at hfree
  obtain ⟨hitems, hcapacity⟩ := next_eq_some hnext
  have hlen : s.mpmc.items.length = mpmc.items.length + 1 := by
    rw [hitems, List.length_cons]
  have hs : Shape s ({ s.writeSlot t ((s.queues t).index (head + UInt32.ofNat items)) v
      with mpmc }.goto t (.fetchMove head possible (items + 1))) t t
      ((s.queues t).write ((s.queues t).index (head + UInt32.ofNat items)) v) (s.advanced t)
      (.fetchMove head possible (items + 1)) :=
    ⟨rfl, (update_eq_self t s.advanced).symm, rfl⟩
  refine h.write hs hfree ?_ (by rw [hpc]; intros; rfl) (fun u _ => ?_) ?_
    (by rw [hpc]; intros; rfl) ?_ rfl (lock_frame h.lock rfl rfl (by rw [hpc]; rfl))
  · rw [hpc, ownSlots, ownSlots, ringSlots_concat, ← Multiset.coe_add, add_comm]
    rfl
  · have hspare := h.spare_le u
    show spare (s.threads u) + mpmc.items.length ≤ mpmc.capacity
    omega
  · refine ⟨?_, ?_, hlt, trivial, trivial, ?_⟩
    · rw [hs.queue_self]
      exact hok.head
    · rw [hs.queue_self]
      exact hok.room
    · show 0 + mpmc.items.length ≤ mpmc.capacity
      have := mpmc.length_le
      omega
  · rw [hpc, hitems]
    show (s.pushed : Multiset V) + 0 + 0 + ((v :: mpmc.items : List V) : Multiset V) + s.popped =
      s.pushed + 0 + {v} + 0 + mpmc.items + s.popped
    rw [← Multiset.cons_coe, ← Multiset.singleton_add, add_zero, add_zero, add_zero, ← add_assoc]

/-- The steps of `fetch_from`. The guard is for the slots it writes. -/
theorem advanceFetch_ok (h : SystemOk s) (hguard : FetchFits s (.advance t))
    (hstep : s.advanceFetch t = some s') : SystemOk s' := by
  have hok := h.thread t
  unfold advanceFetch at hstep
  cases hpc : s.threads t with
  | fetchLoadHead =>
      rw [hpc] at hstep hok
      cases hstep
      exact h.goto hpc ⟨fun _ hm => (Option.some.inj hm).symm, hok.room, trivial, trivial, trivial,
        hok.spare⟩ {} rfl
  | fetchLoadTail head =>
      rw [hpc] at hstep hok
      cases hstep
      have hhead : head = (s.queues t).head := hok.head head rfl
      have hdist := dist_steal_head (h.room_le t)
      rw [← hhead] at hdist
      exact h.goto hpc ⟨hok.head, hok.room, trivial,
        ⟨hdist.ge, by rw [hdist]; exact h.room_le t⟩, trivial, hok.spare⟩ {} rfl
  | fetchLen head tail =>
      have hguard : FetchFitsAt s t (s.threads t) := hguard
      rw [hpc] at hstep hok hguard
      obtain ⟨-, rfl⟩ := Option.ite_some_none_eq_some.mp hstep
      obtain ⟨hle, hcap⟩ : stolen (s.queues t) + live (s.queues t) ≤ dist (stealOf tail) head ∧
        dist (stealOf tail) head ≤ (s.queues t).capacity.toNat := hok.own
      -- The count is computed from `real_tail`: only the guard keeps it off the slots being stolen.
      have hfits := fetchCount_le hcap hguard
      refine h.goto hpc ⟨hok.head, ?_, trivial, trivial, trivial, hok.spare⟩ {} rfl
      rw [reserved]
      omega
  | fetchLock head possible =>
      rw [hpc] at hstep hok
      obtain ⟨hlock, rfl⟩ := Option.ite_some_none_eq_some.mp hstep
      exact h.gotoLock hpc ⟨hok.head, hok.room, Nat.zero_le _, trivial, trivial, hok.spare⟩ {}
        (h.lock_taken hlock rfl)
  | fetchMove head possible items =>
      rw [hpc] at hstep hok
      have hstore : SystemOk (s.goto t (.fetchStore head items)) := by
        refine h.goto hpc ⟨hok.head, ?_, trivial, trivial, trivial, hok.spare⟩ {} rfl
        exact (Nat.add_le_add_left hok.locals _).trans hok.room
      dsimp only at hstep
      split at hstep
      · rename_i hlt
        split at hstep
        · cases hstep
          exact hstore
        · rename_i hnext
          cases hstep
          exact fetchMove_ok h hpc hlt hnext
      · cases hstep
        exact hstore
  | fetchStore head items =>
      rw [hpc] at hstep hok
      cases hstep
      have hhead : head = (s.queues t).head := hok.head head rfl
      rw [hhead]
      exact h.publish hok.room (by rw [hpc, hhead]; rfl) {} hok.spare (fun _ => rfl)
        (by rw [hpc]; intros; rfl) (by rw [hpc]; intros; rfl) (by rw [hpc]; rfl)
        (by rw [hpc]; rfl) (by rw [hpc]; rfl)
  | fetchUnlock =>
      rw [hpc] at hstep
      cases hstep
      exact h.gotoLock hpc (h.pcOk_of_detached {} rfl) {} (h.lock_released (by rw [hpc]; rfl) rfl)
  | _ =>
      rw [hpc] at hstep
      cases hstep

/-! ### Every step -/

/-- A push to the `MpmcQueue` from outside. -/
theorem SystemOk.mpmcPush (h : SystemOk s) (hlock : s.lock = none) {mpmc : MpmcQueue V}
    (hpush : s.mpmc.push v = some mpmc) : SystemOk { s with mpmc, pushed := s.pushed ++ [v] } := by
  have hitems : mpmc.items = s.mpmc.items ++ [v] := by
    unfold MpmcQueue.push at hpush
    split at hpush
    · cases hpush
    · cases hpush
      rfl
  refine ⟨h.real, fun t => ?_, h.claims, h.slots, ?_, h.lock, h.fault⟩
  · have hok := h.thread t
    refine ⟨hok.head, hok.room, hok.locals, hok.own, hok.source, ?_⟩
    rw [spare_eq_zero (h.not_holdsLock hlock t), Nat.zero_add]
    exact mpmc.length_le
  · have hold := h.values
    show ((s.pushed ++ [v] : List V) : Multiset V) + _ =
      ∑ x, slotValues (s.queues x) (regions s x) + _ + mpmc.items + s.popped
    rw [hitems, ← Multiset.coe_add, ← Multiset.coe_add, Multiset.coe_singleton,
      add_right_comm, hold, ← add_assoc, add_right_comm]

/-- An owner that is idle begins an operation. -/
theorem start_ok (h : SystemOk s) (hidle : s.threads t = .idle) (hstart : IsStart t pc') :
    SystemOk (s.goto t pc') := by
  cases hstart with
  | push v | pop | fetch => exact h.goto_detached hidle {} rfl {} rfl
  | steal src divider hother =>
      -- A queue is never stolen from by its owner.
      have hd : Detached t (.stealLoadDstHead src divider : Pc Q V) := { locals := hother }
      exact h.goto_detached hidle hd rfl {} rfl

/-- Every guarded step keeps `SystemOk`. -/
theorem step_ok {a : SpmcAction Q V} (h : SystemOk s) (hwrap : NoWrap s a) (hfits : FetchFits s a)
    (hstep : s.step a = some s') : SystemOk s' := by
  cases ha : actor a with
  | none =>
      cases a with
      | mpmcPush v =>
          simp only [step] at hstep
          split at hstep
          · rename_i hlock
            split at hstep
            · cases hstep
              exact h
            · rename_i hpush
              cases hstep
              exact h.mpmcPush hlock hpush
          · cases hstep
      | _ => cases ha
  | some t =>
      rcases ownStep_cases ha hstep with ⟨hidle, pc', hstart, rfl⟩ | rfl
      · exact start_ok h hidle hstart
      · rcases advance_cases hstep with hpush | hpop | hsteal | hfetch
        · exact advancePush_ok h hpush
        · exact advancePop_ok h hpop
        · exact advanceSteal_ok h hwrap hsteal
        · exact advanceFetch_ok h hfits hfetch

end Kyron.Proofs.Containers
