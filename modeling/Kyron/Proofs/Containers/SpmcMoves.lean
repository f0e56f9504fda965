import Kyron.Proofs.Containers.SpmcInvariant

/-!
# `Kyron.Proofs.Containers.SpmcMoves`: the moves that keep the invariant

Every step of the system is one of a few moves: a thread goes on and changes no queue
(`SystemOk.goto`), the owner takes items (`SystemOk.take`), a stealer claims items
(`SystemOk.claim`) and aligns the tail after it (`SystemOk.align`), the owner publishes what it
has written (`SystemOk.publish`), a slot is read (`SystemOk.read`) or written
(`SystemOk.write`). Only a write can hit a slot of somebody else, and `index_not_mem_regions`
says that it does not.
-/

set_option autoImplicit false

namespace Kyron.Proofs.Containers

open Kyron.Containers
open Kyron.Lib
open scoped BigOperators
open Function

variable {Q V : Type} [DecidableEq Q] [Fintype Q]
variable {s s' : SpmcSystem Q V} {t x : Q} {q' : SpmcStealQueue V} {a' : Nat} {pc' : Pc Q V}

/-! ### Moves without a slot -/

omit [Fintype Q] in
/-- Two places hold the same slots, claims and values. -/
structure SameHolding (pc pc' : Pc Q V) : Prop where
  own : ∀ m, ownSlots m pc' = ownSlots m pc := by intros; rfl
  source : ∀ y m, sourceSlots y m pc' = sourceSlots y m pc := by intros; rfl
  claim : ∀ y, claimCount y pc' = claimCount y pc := by intros; rfl
  hand : inHand pc' = inHand pc := by rfl
  unpublished : unpublished pc' = unpublished pc := by rfl

omit [Fintype Q] in
/-- At such a place a thread counts on nothing of the queues. -/
structure Detached (t : Q) (pc : Pc Q V) : Prop where
  head : ownHead pc = none := by rfl
  reserved : reserved pc = 0 := by rfl
  locals : LocalOk t pc := by trivial
  own : ∀ q, OwnOk q pc := by intros; trivial
  source : ∀ s, SourceOk s pc := by intros; trivial

theorem SystemOk.room_le (h : SystemOk s) (x : Q) :
    stolen (s.queues x) + live (s.queues x) ≤ (s.queues x).capacity.toNat := by
  have := (h.thread x).room
  omega

theorem SystemOk.spare_le (h : SystemOk s) (t : Q) :
    spare (s.threads t) + s.mpmc.items.length ≤ s.mpmc.capacity := (h.thread t).spare

omit [DecidableEq Q] [Fintype Q] in
theorem Detached.pcOk {pc : Pc Q V} (h : Detached t pc)
    (hroom : stolen (s.queues t) + live (s.queues t) ≤ (s.queues t).capacity.toNat)
    (hspare : spare pc + s.mpmc.items.length ≤ s.mpmc.capacity) : PcOk s t pc where
  head := by
    rw [h.head]
    exact fun _ hmem => (nomatch hmem)
  room := by
    rw [h.reserved]
    exact hroom
  locals := h.locals
  own := h.own _
  source := h.source _
  spare := hspare

omit [Fintype Q] in
/-- The lock after a step of `t` that does not touch it. -/
theorem lock_frame (hlock : ∀ u, s.lock = some u ↔ holdsLock (s.threads u) = true)
    (hthreads : s'.threads = Function.update s.threads t pc') (hl : s'.lock = s.lock)
    (hsame : holdsLock pc' = holdsLock (s.threads t)) (u : Q) :
    s'.lock = some u ↔ holdsLock (s'.threads u) = true := by
  rw [hl, hthreads, hlock u]
  by_cases hu : u = t
  · subst hu
    rw [update_self, hsame]
  · rw [update_of_ne hu]

/-- A step that changes no slot keeps the invariant when it only passes slots around. -/
theorem SystemOk.of_words (h : SystemOk s) (hs : Shape s s' t x q' a' pc')
    (hcounters : (∀ y, realOf (s'.queues y).tail = UInt32.ofNat (s'.advanced y)) ∧
      (∀ u, PcOk s' u (s'.threads u)) ∧
      ∀ y, ∑ u, claimCount y (s'.threads u) = if stolen (s'.queues y) = 0 then 0 else 1)
    (hmask : q'.accessMask = (s.queues x).accessMask) (hdata : q'.data = (s.queues x).data)
    (hregions : ∀ y, (liveSlots (s'.queues y) : Multiset UInt32) +
        (ownSlots (s.queues y).accessMask (s'.threads y) : Multiset UInt32) +
        (sourceSlots y (s.queues y).accessMask pc' : Multiset UInt32) =
      (liveSlots (s.queues y) : Multiset UInt32) +
        (ownSlots (s.queues y).accessMask (s.threads y) : Multiset UInt32) +
        (sourceSlots y (s.queues y).accessMask (s.threads t) : Multiset UInt32))
    (hhand : inHand pc' = inHand (s.threads t))
    (hpush : (s'.pushed : Multiset V) + unpublished pc' = s.pushed + unpublished (s.threads t))
    (hmpmc : s'.mpmc = s.mpmc) (hpopped : s'.popped = s.popped) (hfault : s'.fault = s.fault)
    (hlock : ∀ u, s'.lock = some u ↔ holdsLock (s'.threads u) = true) : SystemOk s' := by
  have hqueue : ∀ y, (s'.queues y).accessMask = (s.queues y).accessMask ∧
      (s'.queues y).data = (s.queues y).data := fun y =>
    ⟨hs.queue_congr SpmcStealQueue.accessMask hmask y, hs.queue_congr SpmcStealQueue.data hdata y⟩
  have hsame : ∀ y, regions s' y = regions s y := by
    intro y
    have hexchange : (0 : Multiset UInt32) + regions s' y = 0 + regions s y :=
      regions_exchange hs.threads (hqueue y).1 (by rw [hregions y])
    rwa [zero_add, zero_add] at hexchange
  refine ⟨hcounters.1, hcounters.2.1, hcounters.2.2, fun y i => ?_, ?_, hlock, hfault.trans h.fault⟩
  · rw [(hqueue y).2, hsame]
    exact h.slots y i
  · have hslots : ∑ y, slotValues (s'.queues y) (regions s' y) =
        ∑ y, slotValues (s.queues y) (regions s y) := by
      refine Finset.sum_congr rfl fun y _ => ?_
      rw [hsame, slotValues, slotValues, (hqueue y).2]
    refine h.values_exchange hs.threads ?_
    rw [hslots, hpush, hhand, hmpmc, hpopped]

/-- A thread goes on and changes nothing but the lock. -/
theorem SystemOk.gotoLock (h : SystemOk s) {l : Option Q} {pc : Pc Q V} (hpc : s.threads t = pc)
    (hok : PcOk s t pc') (hsame : SameHolding pc pc')
    (hlock : ∀ u, l = some u ↔ holdsLock (Function.update s.threads t pc' u) = true) :
    SystemOk ({ s with lock := l }.goto t pc') := by
  subst hpc
  have hs : Shape s ({ s with lock := l }.goto t pc') t t (s.queues t) (s.advanced t) pc' :=
    ⟨(update_eq_self t s.queues).symm, (update_eq_self t s.advanced).symm, rfl⟩
  have hself : PcOk ({ s with lock := l }.goto t pc') t pc' :=
    ⟨hok.head, hok.room, hok.locals, hok.own, hok.source, hok.spare⟩
  refine h.of_words hs ?_ rfl rfl (fun y => ?_) hsame.hand ?_ rfl rfl rfl hlock
  · exact h.counters hs ⟨rfl, rfl, h.real t, le_rfl, fun _ => le_rfl⟩ (fun hne => absurd rfl hne)
      (fun _ _ _ => ⟨rfl, le_rfl⟩) (fun u _ => h.spare_le u) hself (fun y _ => hsame.claim y)
      (by rw [hsame.claim])
  · rw [hsame.source]
    by_cases hy : y = t
    · subst hy
      rw [hs.thread_self, hsame.own]
      rfl
    · rw [hs.thread_ne hy]
      rfl
  · rw [hsame.unpublished]
    rfl

/-- A thread goes on and changes nothing. -/
theorem SystemOk.goto (h : SystemOk s) {pc : Pc Q V} (hpc : s.threads t = pc)
    (hok : PcOk s t pc') (hsame : SameHolding pc pc') (hlock : holdsLock pc' = holdsLock pc) :
    SystemOk (s.goto t pc') := by
  subst hpc
  have hframe : ∀ u, (s.goto t pc').lock = some u ↔ holdsLock ((s.goto t pc').threads u) = true :=
    lock_frame h.lock rfl rfl hlock
  exact h.gotoLock rfl hok hsame hframe

/-! ### Moves of the counters -/

/-- A claim that is held keeps `steal` apart from `real_tail`. -/
theorem SystemOk.stolen_ne_zero (h : SystemOk s) {u : Q} (hu : claimCount x (s.threads u) ≠ 0) :
    stolen (s.queues x) ≠ 0 := by
  intro hzero
  have hsum := h.claims x
  rw [if_pos hzero] at hsum
  exact hu (Finset.sum_eq_zero_iff.mp hsum u (Finset.mem_univ u))

/-- Nobody else holds a claim on the queue that `t` has claimed from. -/
theorem SystemOk.claim_unique (h : SystemOk s) (ht : claimCount x (s.threads t) = 1) {u : Q}
    (hu : u ≠ t) : claimCount x (s.threads u) = 0 := by
  have hsum := h.claims x
  rw [if_neg (h.stolen_ne_zero (by rw [ht]; exact one_ne_zero)),
    ← Finset.add_sum_erase _ _ (Finset.mem_univ t), ht] at hsum
  have hrest : ∑ v ∈ Finset.univ.erase t, claimCount x (s.threads v) = 0 := by omega
  exact Finset.sum_eq_zero_iff.mp hrest u (Finset.mem_erase.mpr ⟨hu, Finset.mem_univ u⟩)

omit [DecidableEq Q] [Fintype Q] in
/-- What the owner knows of its queue stays true when others take items. -/
theorem OwnOk.frame {q : SpmcStealQueue V} {pc : Pc Q V} (h : OwnOk q pc)
    (hmask : q'.accessMask = q.accessMask) (hcap : q'.capacity = q.capacity)
    (hroom : stolen q' + live q' ≤ stolen q + live q)
    (hdata : ∀ v head, pc = .pushStore v head → q'.data (q.index head) = q.data (q.index head)) :
    OwnOk q' pc := by
  cases pc with
  | pushStore v head =>
      have hindex : q'.index head = q.index head := by
        rw [SpmcStealQueue.index, SpmcStealQueue.index, hmask]
      show q'.data (q'.index head) = .full v
      rw [hindex, hdata v head rfl]
      exact h
  | fetchLen head tail => exact ⟨hroom.trans h.1, by rw [hcap]; exact h.2⟩
  | _ => trivial

/-- The owner takes the first `n` live items. -/
theorem SystemOk.take (h : SystemOk s) {n : UInt32} (hn : n.toNat ≤ live (s.queues t))
    (hd : Detached t pc') (hspare : spare pc' + s.mpmc.items.length ≤ s.mpmc.capacity)
    (hown : ∀ m, ownSlots m (s.threads t) = [])
    (hown' : ownSlots (s.queues t).accessMask pc' =
      ringSlots (s.queues t).accessMask (realOf (s.queues t).tail) n.toNat)
    (hsource : ∀ y m, sourceSlots y m pc' = sourceSlots y m (s.threads t))
    (hclaim : ∀ y, claimCount y pc' = claimCount y (s.threads t))
    (hhand : inHand pc' = inHand (s.threads t))
    (hunpublished : unpublished pc' = unpublished (s.threads t))
    (hlock : holdsLock pc' = holdsLock (s.threads t)) :
    SystemOk ((s.setTail t (advanceTail (s.queues t).tail n) n).goto t pc') := by
  obtain ⟨q, hq⟩ : ∃ q, q = s.queues t := ⟨_, rfl⟩
  obtain ⟨q', hq'⟩ : ∃ q', q' = { q with tail := advanceTail q.tail n } := ⟨_, rfl⟩
  have hs : Shape s ((s.setTail t (advanceTail (s.queues t).tail n) n).goto t pc') t t q'
      (s.advanced t + n.toNat) pc' := by
    rw [hq', hq]
    exact ⟨rfl, rfl, rfl⟩
  rw [← hq] at hn hown'
  have hroom := h.room_le t
  have hreal := h.real t
  rw [← hq] at hroom hreal
  have hhead : q'.head = q.head := by rw [hq']
  have htail : realOf q'.tail = realOf q.tail + n := by rw [hq', realOf_advanceTail]
  have hmask : q'.accessMask = q.accessMask := by rw [hq']
  have hcap : q'.capacity = q.capacity := by rw [hq']
  have hlive : live q' = live q - n.toNat := live_take hhead htail hn
  have htailWord : q'.tail = advanceTail q.tail n := by rw [hq']
  have hstolen := stolen_advance htailWord hn hroom
  have hself : PcOk ((s.setTail t (advanceTail (s.queues t).tail n) n).goto t pc') t pc' := by
    refine hd.pcOk ?_ hspare
    rw [hs.queue_self, hlive, hcap]
    omega
  refine h.of_words hs ?_ (by rw [hmask, hq]) (by rw [hq', hq]) (fun y => ?_) hhand
    (by rw [hunpublished]; rfl) rfl rfl rfl (lock_frame h.lock rfl rfl hlock)
  · refine h.counters hs ⟨by rw [hmask, hq], by rw [hcap, hq], ?_, Nat.le_add_right _ _, ?_⟩
      (fun hne => absurd rfl hne) ?_ (fun u _ => h.spare_le u) hself (fun y _ => hclaim y) ?_
    · rw [htail, hreal, UInt32.ofNat_add, UInt32.ofNat_toNat]
    · intro hsame
      rw [hlive, ← hq]
      omega
    · -- With a stealer at work `advanceTail` leaves `steal` alone.
      intro u _ hu
      have hne := h.stolen_ne_zero hu
      rw [← hq] at hne ⊢
      rcases hstolen with ⟨hzero, -⟩ | ⟨-, hsteal, hgrow⟩
      · exact absurd hzero hne
      · exact ⟨hsteal, by omega⟩
    · rw [hclaim, ← hq]
      rcases hstolen with ⟨hzero, hzero'⟩ | ⟨hne, -, hgrow⟩
      · rw [if_pos hzero, if_pos hzero']
      · rw [if_neg hne, if_neg (by omega)]
  · rw [hsource]
    by_cases hy : y = t
    · subst hy
      rw [hs.thread_self, hs.queue_self, hown, ← hq, hown',
        liveSlots_take hmask hhead htail hn, ← Multiset.coe_add, Multiset.coe_nil, add_zero]
      congr 1
      exact add_comm _ _
    · rw [hs.thread_ne hy, hs.queue_ne hy]

/-- A stealer claims the first `n` live items of a queue from which nobody is stealing. -/
theorem SystemOk.claim (h : SystemOk s) {dstHead size head n : UInt32} {divider : UInt8}
    {tail : UInt64} {since : Nat}
    (hpc : s.threads t = .stealExchange x dstHead size divider tail since head)
    (hzero : stolen (s.queues x) = 0) (hpos : 0 < n.toNat) (hn : n.toNat ≤ live (s.queues x))
    (hsize : n.toNat ≤ size.toNat) :
    SystemOk ((s.setTail x (claimTail (s.queues x).tail n) n).goto t
      (.stealRead x dstHead ((s.queues x).index (realOf (s.queues x).tail)) n 0)) := by
  obtain ⟨q, hq⟩ : ∃ q, q = s.queues x := ⟨_, rfl⟩
  obtain ⟨q', hq'⟩ : ∃ q', q' = { q with tail := claimTail q.tail n } := ⟨_, rfl⟩
  have hok := h.thread t
  rw [hpc] at hok
  have hxt : x ≠ t := hok.locals.1
  have hroom := h.room_le x
  have hreal := h.real x
  have hknown := (h.thread x).own
  rw [← hq] at hroom hreal hzero hn hknown
  have hhead : q'.head = q.head := by rw [hq']
  have htail : realOf q'.tail = realOf q.tail + n := by rw [hq', realOf_claimTail]
  have hsteal : stealOf q'.tail = stealOf q.tail := by rw [hq', stealOf_claimTail]
  have hmask : q'.accessMask = q.accessMask := by rw [hq']
  have hcap : q'.capacity = q.capacity := by rw [hq']
  have hlive : live q' = live q - n.toNat := live_take hhead htail hn
  have hstolen : stolen q' = stolen q + n.toNat := stolen_take hsteal htail hn hroom
  have hsum : stolen q' + live q' ≤ stolen q + live q := by omega
  have hs : Shape s ((s.setTail x (claimTail (s.queues x).tail n) n).goto t
      (.stealRead x dstHead ((s.queues x).index (realOf (s.queues x).tail)) n 0)) t x q'
      (s.advanced x + n.toNat)
      (.stealRead x dstHead ((s.queues x).index (realOf (s.queues x).tail)) n 0) := by
    rw [hq', hq]
    exact ⟨rfl, rfl, rfl⟩
  refine h.of_words hs ?_ (by rw [hmask, hq]) (by rw [hq', hq]) (fun y => ?_)
    (by rw [hpc]; rfl) (by rw [hpc]; rfl) rfl rfl rfl
    (lock_frame h.lock rfl rfl (by rw [hpc]; rfl))
  · refine h.counters hs ⟨by rw [hmask, hq], by rw [hcap, hq], ?_, Nat.le_add_right _ _, ?_⟩
      (fun _ => ⟨by rw [hhead, hq], by rw [← hq]; exact hsum, ?_⟩) ?_ (fun u _ => h.spare_le u)
      ⟨?_, ?_, ⟨hxt, hpos⟩, trivial, ⟨?_, ?_⟩, hok.spare⟩ ?_ ?_
    · rw [htail, hreal, UInt32.ofNat_add, UInt32.ofNat_toNat]
    · intro hsame
      omega
    · exact hknown.frame hmask hcap hsum fun _ _ _ => by rw [hq']
    · intro u _ hu
      exact absurd (by rw [← hq]; exact hzero) (h.stolen_ne_zero hu)
    · rw [hs.queue_ne hxt.symm]
      exact hok.head
    · rw [hs.queue_ne hxt.symm]
      exact (Nat.add_le_add_left hsize _).trans hok.room
    · rw [hs.queue_self, SpmcStealQueue.index, SpmcStealQueue.index, hsteal, hmask, ← hq,
        stolen_eq_zero.mp hzero]
    · rw [hs.queue_self]
      omega
    · intro y hy
      rw [hpc]
      simp [claimCount, hy.symm]
    · rw [hpc, ← hq, if_pos hzero, if_neg (show stolen q' ≠ 0 by omega)]
      simp [claimCount]
  · rw [hpc]
    by_cases hy : y = x
    · subst hy
      -- The stealer counts on from a masked index, which names the same slots.
      have hstart : ringSlots q.accessMask (q.index (realOf q.tail) + 0) n.toNat =
          ringSlots q.accessMask (realOf q.tail) n.toNat := by
        rw [SpmcStealQueue.index, ringSlots_and_mask_add q.capacity_pow q.accessMask_eq,
          UInt32.add_zero]
      rw [hs.thread_ne hxt, hs.queue_self, ← hq, liveSlots_take hmask hhead htail hn,
        show sourceSlots y q.accessMask
          (.stealRead y dstHead (q.index (realOf q.tail)) n 0 : Pc Q V) =
          ringSlots q.accessMask (realOf q.tail) n.toNat from (if_pos rfl).trans hstart,
        ← Multiset.coe_add]
      ext i
      simp only [Multiset.count_add]
      simp only [sourceSlots, Multiset.coe_nil, Multiset.count_zero]
      omega
    · rw [hs.queue_ne hy]
      simp only [sourceSlots, if_neg (Ne.symm hy)]
      by_cases hyt : y = t
      · subst hyt
        rw [hs.thread_self, hpc]
        rfl
      · rw [hs.thread_ne hyt]

/-- A stealer that has copied its items gives their space back. -/
theorem SystemOk.align (h : SystemOk s) {dstHead count : UInt32} {tail : UInt64}
    (hpc : s.threads t = .stealAlign x dstHead count tail) :
    SystemOk ((s.setTail x (alignTail (s.queues x).tail) 0).goto t
      (.stealStore dstHead count)) := by
  obtain ⟨q, hq⟩ : ∃ q, q = s.queues x := ⟨_, rfl⟩
  obtain ⟨q', hq'⟩ : ∃ q', q' = { q with tail := alignTail q.tail } := ⟨_, rfl⟩
  have hs : Shape s ((s.setTail x (alignTail (s.queues x).tail) 0).goto t
      (.stealStore dstHead count)) t x q' (s.advanced x) (.stealStore dstHead count) := by
    rw [hq', hq]
    exact ⟨rfl, rfl, rfl⟩
  have hok := h.thread t
  rw [hpc] at hok
  have hxt : x ≠ t := hok.locals
  have hone : claimCount x (s.threads t) = 1 := by
    rw [hpc]
    simp [claimCount]
  have hne := h.stolen_ne_zero (by rw [hone]; exact one_ne_zero)
  have hreal := h.real x
  have hknown := (h.thread x).own
  rw [← hq] at hreal hne hknown
  have hhead : q'.head = q.head := by rw [hq']
  have htail : realOf q'.tail = realOf q.tail := by rw [hq', realOf_alignTail]
  have hmask : q'.accessMask = q.accessMask := by rw [hq']
  have hcap : q'.capacity = q.capacity := by rw [hq']
  have hlive : live q' = live q := by rw [live, live, htail, hhead]
  have hzero : stolen q' = 0 := by
    rw [stolen_eq_zero, htail, hq', stealOf_alignTail]
  have hsum : stolen q' + live q' ≤ stolen q + live q := by omega
  have hself : PcOk ((s.setTail x (alignTail (s.queues x).tail) 0).goto t
      (.stealStore dstHead count)) t (.stealStore dstHead count) := by
    refine ⟨?_, ?_, trivial, trivial, trivial, hok.spare⟩
    · rw [hs.queue_ne hxt.symm]
      exact hok.head
    · rw [hs.queue_ne hxt.symm]
      exact hok.room
  refine h.of_words hs ?_ (by rw [hmask, hq]) (by rw [hq', hq]) (fun y => ?_)
    (by rw [hpc]; rfl) (by rw [hpc]; rfl) rfl rfl rfl
    (lock_frame h.lock rfl rfl (by rw [hpc]; rfl))
  · refine h.counters hs ⟨by rw [hmask, hq], by rw [hcap, hq], by rw [htail, hreal], le_rfl, ?_⟩
      (fun _ => ⟨by rw [hhead, hq], by rw [← hq]; exact hsum, ?_⟩) ?_ (fun u _ => h.spare_le u)
      hself ?_ ?_
    · intro _
      rw [hlive, hq]
    · exact hknown.frame hmask hcap hsum fun _ _ _ => by rw [hq']
    · -- The one claim on the queue is that of the thread that aligns.
      intro u hu hclaim
      exact absurd (h.claim_unique hone hu) hclaim
    · intro y hy
      rw [hpc]
      simp [claimCount, hy.symm]
    · rw [hone, ← hq, if_neg hne, if_pos hzero]
      simp [claimCount]
  · have hslots : liveSlots q' = liveSlots q := by
      rw [liveSlots, liveSlots, hlive, htail, hmask]
    rw [hpc]
    by_cases hy : y = x
    · subst hy
      rw [hs.thread_ne hxt, hs.queue_self, hslots, hq]
      rfl
    · rw [hs.queue_ne hy]
      by_cases hyt : y = t
      · subst hyt
        rw [hs.thread_self, hpc]
        rfl
      · rw [hs.thread_ne hyt]
        rfl

/-- The owner publishes the `k` slots that it has written from `head` on. -/
theorem SystemOk.publish (h : SystemOk s) {k : Nat} {pushed : List V}
    (hroom : stolen (s.queues t) + live (s.queues t) + k ≤ (s.queues t).capacity.toNat)
    (hown : ownSlots (s.queues t).accessMask (s.threads t) =
      ringSlots (s.queues t).accessMask (s.queues t).head k)
    (hd : Detached t pc') (hspare : spare pc' + s.mpmc.items.length ≤ s.mpmc.capacity)
    (hown' : ∀ m, ownSlots m pc' = [])
    (hsource : ∀ y m, sourceSlots y m pc' = sourceSlots y m (s.threads t))
    (hclaim : ∀ y, claimCount y pc' = claimCount y (s.threads t))
    (hhand : inHand pc' = inHand (s.threads t))
    (hpush : (pushed : Multiset V) + unpublished pc' = s.pushed + unpublished (s.threads t))
    (hlock : holdsLock pc' = holdsLock (s.threads t)) :
    SystemOk { (s.setHead t ((s.queues t).head + UInt32.ofNat k)).goto t pc' with pushed } := by
  obtain ⟨q, hq⟩ : ∃ q, q = s.queues t := ⟨_, rfl⟩
  obtain ⟨q', hq'⟩ : ∃ q', q' = { q with head := q.head + UInt32.ofNat k } := ⟨_, rfl⟩
  have hs : Shape s
      { (s.setHead t ((s.queues t).head + UInt32.ofNat k)).goto t pc' with pushed } t t q'
      (s.advanced t) pc' := by
    rw [hq', hq]
    exact ⟨rfl, (update_eq_self t s.advanced).symm, rfl⟩
  have hreal := h.real t
  rw [← hq] at hroom hown hreal
  have hhead : q'.head = q.head + UInt32.ofNat k := by rw [hq']
  have htail : q'.tail = q.tail := by rw [hq']
  have hmask : q'.accessMask = q.accessMask := by rw [hq']
  have hcap : q'.capacity = q.capacity := by rw [hq']
  have hlive : live q' = live q + k := live_publish htail hhead hroom
  have hstolen : stolen q' = stolen q := by rw [stolen, stolen, htail]
  refine h.of_words hs ?_ (by rw [hmask, hq]) (by rw [hq', hq]) (fun y => ?_) hhand hpush rfl rfl
    rfl (lock_frame h.lock rfl rfl hlock)
  · refine h.counters hs ⟨by rw [hmask, hq], by rw [hcap, hq], by rw [htail, hreal], le_rfl, ?_⟩
      (fun hne => absurd rfl hne) ?_ (fun u _ => h.spare_le u) (hd.pcOk ?_ hspare)
      (fun y _ => hclaim y) (by rw [hclaim, hstolen, hq])
    · intro _
      rw [hlive, hq]
      omega
    · intro u _ _
      rw [htail, hstolen, hq]
      exact ⟨rfl, le_rfl⟩
    · rw [hs.queue_self, hlive, hstolen, hcap]
      omega
  · rw [hsource]
    by_cases hy : y = t
    · subst hy
      rw [hs.thread_self, hs.queue_self, hown', ← hq, hown,
        liveSlots_publish hmask htail hhead hroom, ← Multiset.coe_add, Multiset.coe_nil, add_zero]
    · rw [hs.thread_ne hy, hs.queue_ne hy]

/-! ### Moves of a slot -/

/-- A slot that belongs to somebody holds an unread value. -/
theorem SystemOk.exists_full (h : SystemOk s) {i : UInt32} (hi : i ∈ regions s x) :
    ∃ v, (s.queues x).data i = .full v := by
  have hcount := h.slots x i
  have hpos := Multiset.count_pos.mpr hi
  cases hdata : (s.queues x).data i with
  | full v => exact ⟨v, rfl⟩
  | uninit | moved v =>
      rw [hdata] at hcount
      change 0 = _ at hcount
      omega

/-- A slot belongs to nobody twice. -/
theorem SystemOk.count_regions_le (h : SystemOk s) (x : Q) (i : UInt32) :
    (regions s x).count i ≤ 1 := by
  rw [← h.slots x i]
  exact Bool.toNat_le _

/-- The counters after a step that reads or writes a slot. -/
theorem SystemOk.counters_of_slot (h : SystemOk s) (hs : Shape s s' t x q' (s.advanced x) pc')
    (hhead : q'.head = (s.queues x).head) (htail : q'.tail = (s.queues x).tail)
    (hmask : q'.accessMask = (s.queues x).accessMask)
    (hcap : q'.capacity = (s.queues x).capacity)
    (hdata : x ≠ t → ∀ v head, s.threads x = .pushStore v head →
      q'.data ((s.queues x).index head) = (s.queues x).data ((s.queues x).index head))
    (hspare : ∀ u, u ≠ t → spare (s.threads u) + s'.mpmc.items.length ≤ s'.mpmc.capacity)
    (hself : PcOk s' t pc') (hclaim : ∀ y, claimCount y pc' = claimCount y (s.threads t)) :
    (∀ y, realOf (s'.queues y).tail = UInt32.ofNat (s'.advanced y)) ∧
      (∀ u, PcOk s' u (s'.threads u)) ∧
      ∀ y, ∑ u, claimCount y (s'.threads u) = if stolen (s'.queues y) = 0 then 0 else 1 := by
  have hlive : live q' = live (s.queues x) := by rw [live, live, htail, hhead]
  have hstolen : stolen q' = stolen (s.queues x) := by rw [stolen, stolen, htail]
  refine h.counters hs ⟨hmask, hcap, by rw [htail, h.real x], le_rfl, fun _ => hlive.ge⟩
    (fun hne => ⟨hhead, ?_, ?_⟩) (fun _ _ _ => ⟨by rw [htail], hstolen.ge⟩) hspare hself
    (fun y _ => hclaim y) (by rw [hclaim, hstolen])
  · rw [hlive, hstolen]
  · exact (h.thread x).own.frame hmask hcap (by rw [hlive, hstolen]) (hdata hne)

theorem Slot.isFull_read (slot : Slot V) : slot.read.isFull = false := by
  cases slot <;> rfl

theorem Slot.value?_read (slot : Slot V) : slot.read.value? = slot.value? := by
  cases slot <;> rfl

section

omit [DecidableEq Q] [Fintype Q]

variable (q : SpmcStealQueue V) (i : UInt32)

theorem read_self : (q.read i).data i = (q.data i).read := if_pos rfl

theorem read_of_ne {j : UInt32} (hj : j ≠ i) : (q.read i).data j = q.data j := if_neg hj

theorem write_self (v : V) : (q.write i v).data i = .full v := if_pos rfl

theorem write_of_ne (v : V) {j : UInt32} (hj : j ≠ i) : (q.write i v).data j = q.data j :=
  if_neg hj

/-- A read leaves the bits of every slot. -/
theorem value?_read (j : UInt32) : ((q.read i).data j).value? = (q.data j).value? := by
  by_cases hj : j = i
  · subst hj
    rw [read_self, Slot.value?_read]
  · rw [read_of_ne q i hj]

end

omit [DecidableEq Q] [Fintype Q] in
/-- One slot more. -/
theorem slotValues_add {q : SpmcStealQueue V} {i : UInt32} {v : V}
    (hvalue : (q.data i).value? = some v) (m : Multiset UInt32) :
    slotValues q ({i} + m) = {v} + slotValues q m := by
  rw [Multiset.singleton_add, Multiset.singleton_add]
  exact Multiset.filterMap_cons_some (fun i => (q.data i).value?) i m hvalue

omit [DecidableEq Q] [Fintype Q] in
theorem slotValues_congr {q : SpmcStealQueue V} {m : Multiset UInt32}
    (h : ∀ j ∈ m, (q'.data j).value? = (q.data j).value?) : slotValues q' m = slotValues q m := by
  rw [slotValues, slotValues, Multiset.filterMap_eq_bind, Multiset.filterMap_eq_bind]
  exact Multiset.bind_congr fun j hj => by rw [h j hj]

/-- A thread reads a slot that belongs to it. -/
theorem SystemOk.read (h : SystemOk s) {i : UInt32} {v : V}
    (hs : Shape s s' t x ((s.queues x).read i) (s.advanced x) pc')
    (hvalue : ((s.queues x).data i).value? = some v)
    (hregions : ∀ y, (if y = x then {i} else (0 : Multiset UInt32)) +
        ((ownSlots (s.queues y).accessMask (s'.threads y) : Multiset UInt32) +
          (sourceSlots y (s.queues y).accessMask pc' : Multiset UInt32)) =
      (ownSlots (s.queues y).accessMask (s.threads y) : Multiset UInt32) +
        (sourceSlots y (s.queues y).accessMask (s.threads t) : Multiset UInt32))
    (hspare : ∀ u, u ≠ t → spare (s.threads u) + s'.mpmc.items.length ≤ s'.mpmc.capacity)
    (hself : PcOk s' t pc') (hclaim : ∀ y, claimCount y pc' = claimCount y (s.threads t))
    (hpushed : s'.pushed = s.pushed) (hunpublished : unpublished pc' = unpublished (s.threads t))
    (hmoved : {v} + inHand (s.threads t) + s.mpmc.items + s.popped =
      inHand pc' + s'.mpmc.items + s'.popped)
    (hfault : s'.fault = (s.fault || !((s.queues x).data i).isFull))
    (hlock : ∀ u, s'.lock = some u ↔ holdsLock (s'.threads u) = true) : SystemOk s' := by
  classical
  have hmask := hs.queue_congr SpmcStealQueue.accessMask rfl
  have hlive := hs.queue_congr liveSlots rfl
  have hexchange : ∀ y, (if y = x then {i} else 0) + regions s' y = regions s y := by
    intro y
    have hr : (if y = x then {i} else (0 : Multiset UInt32)) + regions s' y = 0 + regions s y := by
      refine regions_exchange hs.threads (hmask y) ?_
      rw [hlive, zero_add, add_assoc, add_left_comm, hregions y, ← add_assoc]
    rwa [zero_add] at hr
  have hx := hexchange x
  rw [if_pos rfl] at hx
  have hmem : i ∈ regions s x := by
    rw [← hx]
    exact Multiset.mem_add.mpr (Or.inl (Multiset.mem_singleton_self i))
  obtain ⟨v', hfull⟩ := h.exists_full hmem
  have honce : (regions s' x).count i = 0 := by
    have hle := h.count_regions_le x i
    rw [← hx, Multiset.count_add, Multiset.count_singleton_self] at hle
    omega
  have hcounters := h.counters_of_slot hs rfl rfl rfl rfl (fun hne w head hw => ?_) hspare hself
    hclaim
  · refine ⟨hcounters.1, hcounters.2.1, hcounters.2.2, fun y j => ?_, ?_, hlock, ?_⟩
    · have hold := h.slots y j
      rw [← hexchange y, Multiset.count_add] at hold
      by_cases hy : y = x
      · subst hy
        rw [hs.queue_self]
        rw [if_pos rfl] at hold
        by_cases hj : j = i
        · subst hj
          rw [honce, read_self, Slot.isFull_read]
          rfl
        · rw [read_of_ne _ _ hj, hold, Multiset.count_singleton, if_neg hj, zero_add]
      · rw [hs.queue_ne hy, hold, if_neg hy, Multiset.count_zero, zero_add]
    · refine h.values_exchange hs.threads ?_
      -- Reading leaves the bits, so the values of the other slots are the same.
      have hvalues : ∀ y m, slotValues (s'.queues y) m = slotValues (s.queues y) m := fun y m =>
        slotValues_congr fun j _ =>
          hs.queue_congr (fun q => (q.data j).value?) (value?_read (s.queues x) i j) y
      have hsum : ∑ y, slotValues (s.queues y) (regions s y) =
          {v} + ∑ y, slotValues (s'.queues y) (regions s' y) := by
        refine sum_single_add x ({v} : Multiset V) fun y => ?_
        rw [hvalues, ← hexchange y]
        by_cases hy : y = x
        · subst hy
          rw [if_pos rfl, if_pos rfl, slotValues_add hvalue]
        · rw [if_neg hy, if_neg hy, zero_add, zero_add]
      rw [hpushed, hunpublished, hsum]
      ext w
      have hmoved := congrArg (Multiset.count w) hmoved
      simp only [Multiset.count_add] at hmoved ⊢
      omega
    · rw [hfault, h.fault, hfull]
      rfl
  · -- The slot that is read is not the one that the owner has just written.
    have hne' : (s.queues x).index head ≠ i := by
      intro heq
      have hin : i ∈ regions s' x := by
        unfold regions
        rw [hs.thread_ne hne, hw, hmask]
        refine Multiset.mem_add.mpr (Or.inl (Multiset.mem_add.mpr (Or.inr ?_)))
        rw [ownSlots, ringSlots_one, ← heq]
        exact Multiset.mem_singleton_self _
      exact (Multiset.count_pos.mpr hin).ne' honce
    exact read_of_ne _ _ hne'

/-- The next slot in front of what the owner has written belongs to nobody. -/
theorem SystemOk.index_not_mem_regions (h : SystemOk s) {k : Nat}
    (hroom : stolen (s.queues t) + live (s.queues t) + k < (s.queues t).capacity.toNat)
    (hown : ownSlots (s.queues t).accessMask (s.threads t) =
      ringSlots (s.queues t).accessMask (s.queues t).head k) :
    (s.queues t).index ((s.queues t).head + UInt32.ofNat k) ∉ regions s t := by
  obtain ⟨q, hq⟩ : ∃ q, q = s.queues t := ⟨_, rfl⟩
  have hle := h.room_le t
  have hknown := fun u => (h.thread u).source
  unfold regions
  rw [hown]
  rw [← hq] at hroom hle ⊢
  have hcap := capacity_lt q
  have hsteal : dist (stealOf q.tail) (q.head + UInt32.ofNat k) = stolen q + live q + k := by
    rw [Lib.dist_add_right (by rw [dist_steal_head hle]; omega), dist_steal_head hle]
  have hlive : dist (realOf q.tail) (q.head + UInt32.ofNat k) = live q + k :=
    Lib.dist_add_right (show live q + k < 2 ^ 32 by omega)
  rw [Multiset.mem_add, Multiset.mem_add, Multiset.mem_coe, Multiset.mem_coe, Multiset.mem_sum]
  rintro ((hmem | hmem) | ⟨u, -, hmem⟩)
  · exact not_mem_ringSlots q.capacity_pow q.accessMask_eq (by omega) (by omega) hmem
  · have hdist : dist q.head (q.head + UInt32.ofNat k) = k := dist_add _ (by omega)
    exact not_mem_ringSlots q.capacity_pow q.accessMask_eq (by omega) (by omega) hmem
  · -- The claim of a stealer starts at `steal` and ends before `real_tail`.
    have hclaim : ∀ (start count : UInt32) (j : Nat),
        start = q.index (stealOf q.tail) ∧ count.toNat ≤ stolen q →
        q.index (q.head + UInt32.ofNat k) ∉
          ringSlots q.accessMask (start + UInt32.ofNat j) (count.toNat - j) := by
      rintro start count j ⟨rfl, hcount⟩ hmem
      by_cases hj : j < count.toNat
      · have hdist : dist (stealOf q.tail + UInt32.ofNat j) (q.head + UInt32.ofNat k) =
            stolen q + live q + k - j := by
          rw [Lib.dist_add_left (by omega), hsteal]
        rw [SpmcStealQueue.index, ringSlots_and_mask_add q.capacity_pow q.accessMask_eq] at hmem
        exact not_mem_ringSlots q.capacity_pow q.accessMask_eq (by omega) (by omega) hmem
      · rw [Nat.sub_eq_zero_of_le (by omega)] at hmem
        cases hmem
    have hu := hknown u
    cases hpc : s.threads u with
    | stealRead src dstHead start count j =>
        rw [hpc] at hmem hu
        by_cases hsrc : src = t
        · subst hsrc
          rw [sourceSlots, if_pos rfl] at hmem
          exact hclaim start count j (by rw [hq]; exact hu) hmem
        · rw [sourceSlots, if_neg hsrc] at hmem
          cases hmem
    | stealWrite src dstHead start count j v =>
        rw [hpc] at hmem hu
        by_cases hsrc : src = t
        · subst hsrc
          rw [sourceSlots, if_pos rfl] at hmem
          exact hclaim start count (j + 1) (by rw [hq]; exact hu) hmem
        · rw [sourceSlots, if_neg hsrc] at hmem
          cases hmem
    | _ =>
        rw [hpc] at hmem
        cases hmem

/-- The owner writes the next slot. -/
theorem SystemOk.write (h : SystemOk s) {i : UInt32} {v : V}
    (hs : Shape s s' t t ((s.queues t).write i v) (s.advanced t) pc') (hfree : i ∉ regions s t)
    (hown : (ownSlots (s.queues t).accessMask pc' : Multiset UInt32) =
      {i} + (ownSlots (s.queues t).accessMask (s.threads t) : Multiset UInt32))
    (hsource : ∀ y m, sourceSlots y m pc' = sourceSlots y m (s.threads t))
    (hspare : ∀ u, u ≠ t → spare (s.threads u) + s'.mpmc.items.length ≤ s'.mpmc.capacity)
    (hself : PcOk s' t pc') (hclaim : ∀ y, claimCount y pc' = claimCount y (s.threads t))
    (hmoved : (s'.pushed : Multiset V) + unpublished pc' + inHand (s.threads t) + s.mpmc.items +
        s.popped =
      s.pushed + unpublished (s.threads t) + {v} + inHand pc' + s'.mpmc.items + s'.popped)
    (hfault : s'.fault = (s.fault || ((s.queues t).data i).isFull))
    (hlock : ∀ u, s'.lock = some u ↔ holdsLock (s'.threads u) = true) : SystemOk s' := by
  classical
  have hexchange : ∀ y, regions s' y = (if y = t then {i} else 0) + regions s y := by
    intro y
    have hr : (0 : Multiset UInt32) + regions s' y = (if y = t then {i} else 0) + regions s y := by
      by_cases hy : y = t
      · subst hy
        refine regions_exchange hs.threads (by rw [hs.queue_self]; rfl) ?_
        rw [hs.queue_self, hs.thread_self, hown, hsource, if_pos rfl, zero_add]
        show (liveSlots (s.queues y) : Multiset UInt32) + _ + _ = _
        ext j
        simp only [Multiset.count_add]
        omega
      · refine regions_exchange hs.threads (by rw [hs.queue_ne hy]) ?_
        rw [hs.queue_ne hy, hs.thread_ne hy, hsource, if_neg hy]
    rwa [zero_add] at hr
  have hzero : (regions s t).count i = 0 := Multiset.count_eq_zero.mpr hfree
  have hempty : ((s.queues t).data i).isFull = false := by
    have hold := h.slots t i
    rw [hzero] at hold
    cases hfull : ((s.queues t).data i).isFull with
    | false => rfl
    | true =>
        rw [hfull] at hold
        cases hold
  obtain ⟨hreal, hthread, hclaims⟩ :=
    h.counters_of_slot hs rfl rfl rfl rfl (fun hne => absurd rfl hne) hspare hself hclaim
  refine ⟨hreal, hthread, hclaims, fun y j => ?_, ?_, hlock, ?_⟩
  · rw [hexchange y, Multiset.count_add, ← h.slots y j]
    by_cases hy : y = t
    · subst hy
      rw [hs.queue_self, if_pos rfl]
      by_cases hj : j = i
      · subst hj
        rw [write_self, Multiset.count_singleton_self, hempty]
        rfl
      · rw [write_of_ne _ _ _ hj, Multiset.count_singleton, if_neg hj, zero_add]
    · rw [hs.queue_ne hy, if_neg hy, Multiset.count_zero, zero_add]
  · refine h.values_exchange hs.threads ?_
    have hsum : ∑ y, slotValues (s'.queues y) (regions s' y) =
        {v} + ∑ y, slotValues (s.queues y) (regions s y) := by
      refine sum_single_add t ({v} : Multiset V) fun y => ?_
      rw [hexchange y]
      by_cases hy : y = t
      · subst hy
        have hnew : ((s'.queues y).data i).value? = some v := by
          rw [hs.queue_self, write_self]
          rfl
        rw [if_pos rfl, if_pos rfl, slotValues_add hnew]
        -- The other slots that belong to somebody are not written.
        congr 1
        refine slotValues_congr fun j hj => ?_
        rw [hs.queue_self, write_of_ne _ _ _ (by rintro rfl; exact hfree hj)]
      · rw [hs.queue_ne hy, if_neg hy, if_neg hy, zero_add, zero_add]
    rw [hsum]
    ext w
    have hmoved := congrArg (Multiset.count w) hmoved
    simp only [Multiset.count_add] at hmoved ⊢
    omega
  · rw [hfault, h.fault, hempty]
    rfl

end Kyron.Proofs.Containers
