import Mathlib.Algebra.BigOperators.Group.Finset.Basic
import Mathlib.Data.Multiset.AddSub
import Mathlib.Data.Multiset.Count
import Kyron.Containers.SpmcSystem
import Kyron.Lib.Sums
import Kyron.Proofs.Containers.SpmcQueue

/-!
# `Kyron.Proofs.Containers.SpmcInvariant`: who owns which slot

The invariant of the system of stealing queues. Every slot with an unread value belongs to one
region: the live items of its queue, the slots that the queue's owner has taken or has written
and not yet published (`ownSlots`), or the slots that a stealer has claimed and not yet read
(`sourceSlots`). `regions` is the sum of all of them. `SystemOk.slots` says that it lists each
slot with an unread value once and no other slot.

The regions never meet because of the counters. `PcOk` says what each thread knows of them by
where it stands: the owner's copy of `head` is right, what it has reserved fits in front of
`steal`, and a claim starts at `steal` and ends before `real_tail`.
-/

set_option autoImplicit false

namespace Kyron.Proofs.Containers

open Kyron.Containers
open Kyron.Lib
open scoped BigOperators
open Function

variable {Q V : Type}

/-! ### What a thread holds -/

/-- The owner's copy of its `head`. -/
def ownHead : Pc Q V → Option UInt32
  | .pushLoadTail _ _ head | .pushWrite _ head | .pushStore _ head | .overflowLock _ head
  | .overflowLoadTail _ head _ | .overflowExchange _ head _ _ | .popExchange _ head
  | .stealLoadDstTail _ _ head | .stealLoadTail _ head _ _ | .stealLoadHead _ head _ _ _ _
  | .stealExchange _ head _ _ _ _ _ | .stealRead _ head _ _ _ | .stealWrite _ head _ _ _ _
  | .stealReload _ head _ | .stealAlign _ head _ _ | .stealStore head _ | .fetchLoadTail head
  | .fetchLen head _ | .fetchLock head _ | .fetchMove head _ _ | .fetchStore head _ => some head
  | _ => none

/-- How many slots from `head` on the owner counts on. -/
def reserved : Pc Q V → Nat
  | .pushWrite _ _ | .pushStore _ _ => 1
  | .stealLoadTail _ _ size _ | .stealLoadHead _ _ size _ _ _
  | .stealExchange _ _ size _ _ _ _ => size.toNat
  | .stealRead _ _ _ count _ | .stealWrite _ _ _ count _ _ | .stealReload _ _ count
  | .stealAlign _ _ count _ | .stealStore _ count => count.toNat
  | .fetchLock _ possible | .fetchMove _ possible _ => possible
  | .fetchStore _ items => items
  | _ => 0

/-- The slots of its own queue that the owner has taken or has written and not published. -/
def ownSlots (mask : UInt32) : Pc Q V → List UInt32
  | .pushStore _ head => ringSlots mask head 1
  | .overflowMove _ counter left _ => ringSlots mask counter left
  | .popRead i => [i]
  | .stealRead _ head _ _ i | .stealWrite _ head _ _ i _ => ringSlots mask head i
  | .stealReload _ head count | .stealAlign _ head count _
  | .stealStore head count => ringSlots mask head count.toNat
  | .fetchMove head _ items | .fetchStore head items => ringSlots mask head items
  | _ => []

variable [DecidableEq Q]

/-- The slots of the queue `x` that a stealer has claimed and not read. -/
def sourceSlots (x : Q) (mask : UInt32) : Pc Q V → List UInt32
  | .stealRead src _ start count i =>
      if src = x then ringSlots mask (start + UInt32.ofNat i) (count.toNat - i) else []
  | .stealWrite src _ start count i _ =>
      if src = x then ringSlots mask (start + UInt32.ofNat (i + 1)) (count.toNat - (i + 1)) else []
  | _ => []

/-- Whether a thread has claimed items of the queue `x` and has not aligned its tail yet. -/
def claimCount (x : Q) : Pc Q V → Nat
  | .stealRead src _ _ _ _ | .stealWrite src _ _ _ _ _ | .stealReload src _ _
  | .stealAlign src _ _ _ => if src = x then 1 else 0
  | _ => 0

/-- The value that a stealer has read and not yet written. -/
def inHand : Pc Q V → Multiset V
  | .stealWrite _ _ _ _ _ v => {v}
  | _ => 0

/-- The value that a push has written and not yet published. -/
def unpublished : Pc Q V → Multiset V
  | .pushStore v _ => {v}
  | _ => 0

/-- The thread holds the lock of the `MpmcQueue`. -/
def holdsLock : Pc Q V → Bool
  | .overflowLoadTail _ _ _ | .overflowExchange _ _ _ _ | .overflowMove _ _ _ _
  | .overflowUnlock _ _ | .fetchMove _ _ _ | .fetchStore _ _ | .fetchUnlock => true
  | _ => false

/-- How many items the thread still counts on putting into the `MpmcQueue`. -/
def spare : Pc Q V → Nat
  | .overflowLoadTail _ _ free | .overflowExchange _ _ free _ => free.toNat
  | .overflowMove _ _ left _ => left
  | _ => 0

omit [DecidableEq Q] in
theorem spare_eq_zero {pc : Pc Q V} (h : holdsLock pc = false) : spare pc = 0 := by
  cases pc <;> first | rfl | cases h

/-! ### What a thread knows -/

/-- What a thread knows of its own variables. -/
def LocalOk (t : Q) : Pc Q V → Prop
  | .popExchange tail head => head ≠ realOf tail
  | .stealLoadDstHead src _ | .stealLoadDstTail src _ _ | .stealReload src _ _
  | .stealAlign src _ _ _ => src ≠ t
  | .stealLoadTail src _ size _ | .stealLoadHead src _ size _ _ _ => src ≠ t ∧ 0 < size.toNat
  | .stealExchange src _ size _ tail _ head =>
      src ≠ t ∧ 0 < size.toNat ∧ head ≠ realOf tail ∧ stealOf tail = realOf tail
  | .stealRead src _ _ count i | .stealWrite src _ _ count i _ => src ≠ t ∧ i < count.toNat
  | .fetchMove _ possible items => items ≤ possible
  | _ => True

/-- What the owner knows of its own queue, besides its `head` and the space. -/
def OwnOk (q : SpmcStealQueue V) : Pc Q V → Prop
  | .pushStore v head => q.data (q.index head) = .full v
  | .fetchLen head tail =>
      stolen q + live q ≤ dist (stealOf tail) head ∧
        dist (stealOf tail) head ≤ q.capacity.toNat
  | _ => True

/-- What a stealer knows of the queue it steals from. Before its claim: that nothing was taken
since it loaded the tail, if `advanced` says so. After its claim: where the claim starts and
that it is part of the stolen space. -/
def SourceOk (s : SpmcSystem Q V) : Pc Q V → Prop
  | .stealLoadHead src _ _ _ tail since =>
      since ≤ s.advanced src ∧ realOf tail = UInt32.ofNat since
  | .stealExchange src _ _ _ tail since head =>
      since ≤ s.advanced src ∧ realOf tail = UInt32.ofNat since ∧
        (s.advanced src = since → dist (realOf tail) head ≤ live (s.queues src))
  | .stealRead src _ start count _ | .stealWrite src _ start count _ _ =>
      start = (s.queues src).index (stealOf (s.queues src).tail) ∧
        count.toNat ≤ stolen (s.queues src)
  | _ => True

/-- What holds of a thread that stands at `pc`. -/
structure PcOk (s : SpmcSystem Q V) (t : Q) (pc : Pc Q V) : Prop where
  head : ∀ h ∈ ownHead pc, h = (s.queues t).head
  room : stolen (s.queues t) + live (s.queues t) + reserved pc ≤ (s.queues t).capacity.toNat
  locals : LocalOk t pc
  own : OwnOk (s.queues t) pc
  source : SourceOk s pc
  spare : spare pc + s.mpmc.items.length ≤ s.mpmc.capacity

variable [Fintype Q]

/-- All the slots of a queue that belong to somebody. -/
def regions (s : SpmcSystem Q V) (x : Q) : Multiset UInt32 :=
  (liveSlots (s.queues x) : Multiset UInt32) +
    (ownSlots (s.queues x).accessMask (s.threads x) : Multiset UInt32) +
    ∑ t, (sourceSlots x (s.queues x).accessMask (s.threads t) : Multiset UInt32)

/-- The values in a multiset of slots. -/
def slotValues (q : SpmcStealQueue V) (slots : Multiset UInt32) : Multiset V :=
  slots.filterMap fun i => (q.data i).value?

/-- The invariant of the system. -/
structure SystemOk (s : SpmcSystem Q V) : Prop where
  real : ∀ x, realOf (s.queues x).tail = UInt32.ofNat (s.advanced x)
  thread : ∀ t, PcOk s t (s.threads t)
  claims : ∀ x, ∑ t, claimCount x (s.threads t) = if stolen (s.queues x) = 0 then 0 else 1
  slots : ∀ x i, ((s.queues x).data i).isFull.toNat = (regions s x).count i
  values : (s.pushed : Multiset V) + ∑ t, unpublished (s.threads t) =
    ∑ x, slotValues (s.queues x) (regions s x) + ∑ t, inHand (s.threads t) +
      s.mpmc.items + s.popped
  lock : ∀ t, s.lock = some t ↔ holdsLock (s.threads t) = true
  fault : s.fault = false

/-! ### The shape of a step -/

variable {s s' : SpmcSystem Q V} {t x : Q} {q' : SpmcStealQueue V} {a' : Nat} {pc' : Pc Q V}

omit [Fintype Q] in
/-- A step of the thread `t` to `pc'` that changes at most the queue `x`. -/
structure Shape (s s' : SpmcSystem Q V) (t x : Q) (q' : SpmcStealQueue V) (a' : Nat)
    (pc' : Pc Q V) : Prop where
  queues : s'.queues = Function.update s.queues x q'
  advanced : s'.advanced = Function.update s.advanced x a'
  threads : s'.threads = Function.update s.threads t pc'

namespace Shape

omit [Fintype Q]

theorem queue_self (h : Shape s s' t x q' a' pc') : s'.queues x = q' := by
  rw [h.queues, update_self]

theorem queue_ne (h : Shape s s' t x q' a' pc') {y : Q} (hy : y ≠ x) :
    s'.queues y = s.queues y := by
  rw [h.queues, update_of_ne hy]

/-- What the new queue has in common with the old one, every queue has in common with its old
self. -/
theorem queue_congr {α : Type} (h : Shape s s' t x q' a' pc') (f : SpmcStealQueue V → α)
    (hf : f q' = f (s.queues x)) (y : Q) : f (s'.queues y) = f (s.queues y) := by
  by_cases hy : y = x
  · subst hy
    rw [h.queue_self, hf]
  · rw [h.queue_ne hy]

theorem advanced_self (h : Shape s s' t x q' a' pc') : s'.advanced x = a' := by
  rw [h.advanced, update_self]

theorem advanced_ne (h : Shape s s' t x q' a' pc') {y : Q} (hy : y ≠ x) :
    s'.advanced y = s.advanced y := by
  rw [h.advanced, update_of_ne hy]

theorem thread_self (h : Shape s s' t x q' a' pc') : s'.threads t = pc' := by
  rw [h.threads, update_self]

theorem thread_ne (h : Shape s s' t x q' a' pc') {u : Q} (hu : u ≠ t) :
    s'.threads u = s.threads u := by
  rw [h.threads, update_of_ne hu]

end Shape

/-- What a step on a queue leaves to the threads that steal from it. -/
structure QueueStep (q q' : SpmcStealQueue V) (a a' : Nat) : Prop where
  mask : q'.accessMask = q.accessMask
  capacity : q'.capacity = q.capacity
  real : realOf q'.tail = UInt32.ofNat a'
  advanced : a ≤ a'
  live : a = a' → live q ≤ live q'

omit [Fintype Q] in
/-- What a thread knows stays true while others move the queues in their ways. -/
theorem PcOk.frame {u : Q} {pc : Pc Q V} (h : PcOk s u pc)
    (hqueues : ∀ y, (s'.queues y).accessMask = (s.queues y).accessMask ∧
      s.advanced y ≤ s'.advanced y ∧
      (s.advanced y = s'.advanced y → live (s.queues y) ≤ live (s'.queues y)))
    (hclaim : ∀ y, claimCount y pc ≠ 0 → stealOf (s'.queues y).tail = stealOf (s.queues y).tail ∧
      stolen (s.queues y) ≤ stolen (s'.queues y))
    (hhead : (s'.queues u).head = (s.queues u).head)
    (hcap : (s'.queues u).capacity = (s.queues u).capacity)
    (hroom : stolen (s'.queues u) + live (s'.queues u) ≤ stolen (s.queues u) + live (s.queues u))
    (hown : OwnOk (s'.queues u) pc)
    (hspare : Containers.spare pc + s'.mpmc.items.length ≤ s'.mpmc.capacity) : PcOk s' u pc where
  head := by
    rw [hhead]
    exact h.head
  room := by
    have := h.room
    rw [hcap]
    omega
  locals := h.locals
  own := hown
  source := by
    have hsource := h.source
    cases pc with
    | stealLoadHead src dstHead size divider tail since =>
        exact ⟨hsource.1.trans (hqueues src).2.1, hsource.2⟩
    | stealExchange src dstHead size divider tail since head =>
        obtain ⟨hsince, hreal, hlive⟩ := hsource
        obtain ⟨-, hmono, hgrow⟩ := hqueues src
        refine ⟨hsince.trans hmono, hreal, fun heq => ?_⟩
        -- The counter only grows, so it has not moved since the tail was loaded.
        have hsame : s.advanced src = since := by omega
        exact (hlive hsame).trans (hgrow (hsame.trans heq.symm))
    | stealRead src dstHead start count i =>
        obtain ⟨hsteal, hle⟩ := hclaim src (by simp [claimCount])
        refine ⟨hsource.1.trans ?_, hsource.2.trans hle⟩
        rw [SpmcStealQueue.index, SpmcStealQueue.index, hsteal, (hqueues src).1]
    | stealWrite src dstHead start count i v =>
        obtain ⟨hsteal, hle⟩ := hclaim src (by simp [claimCount])
        refine ⟨hsource.1.trans ?_, hsource.2.trans hle⟩
        rw [SpmcStealQueue.index, SpmcStealQueue.index, hsteal, (hqueues src).1]
    | _ => trivial
  spare := hspare

/-- The counters after a step. Each hypothesis is about the one queue that changes or the one
thread that moves. -/
theorem SystemOk.counters (h : SystemOk s) (hs : Shape s s' t x q' a' pc')
    (hq : QueueStep (s.queues x) q' (s.advanced x) a')
    (howner : x ≠ t → q'.head = (s.queues x).head ∧
      stolen q' + live q' ≤ stolen (s.queues x) + live (s.queues x) ∧ OwnOk q' (s.threads x))
    (hclaim : ∀ u, u ≠ t → claimCount x (s.threads u) ≠ 0 →
      stealOf q'.tail = stealOf (s.queues x).tail ∧ stolen (s.queues x) ≤ stolen q')
    (hspare : ∀ u, u ≠ t →
      Containers.spare (s.threads u) + s'.mpmc.items.length ≤ s'.mpmc.capacity)
    (hself : PcOk s' t pc')
    (hother : ∀ y, y ≠ x → claimCount y pc' = claimCount y (s.threads t))
    (hcount : claimCount x pc' + (if stolen (s.queues x) = 0 then 0 else 1) =
      claimCount x (s.threads t) + (if stolen q' = 0 then 0 else 1)) :
    (∀ y, realOf (s'.queues y).tail = UInt32.ofNat (s'.advanced y)) ∧
      (∀ u, PcOk s' u (s'.threads u)) ∧
      ∀ y, ∑ u, claimCount y (s'.threads u) = if stolen (s'.queues y) = 0 then 0 else 1 := by
  refine ⟨fun y => ?_, fun u => ?_, fun y => ?_⟩
  · -- The ghost counters follow `real_tail`.
    by_cases hy : y = x
    · subst hy
      rw [hs.queue_self, hs.advanced_self]
      exact hq.real
    · rw [hs.queue_ne hy, hs.advanced_ne hy]
      exact h.real y
  · -- What the threads know.
    by_cases hu : u = t
    · subst hu
      rw [hs.thread_self]
      exact hself
    rw [hs.thread_ne hu]
    have hok := h.thread u
    have hqueues : ∀ y, (s'.queues y).accessMask = (s.queues y).accessMask ∧
        s.advanced y ≤ s'.advanced y ∧
        (s.advanced y = s'.advanced y → live (s.queues y) ≤ live (s'.queues y)) := by
      intro y
      by_cases hy : y = x
      · subst hy
        rw [hs.queue_self, hs.advanced_self]
        exact ⟨hq.mask, hq.advanced, hq.live⟩
      · rw [hs.queue_ne hy, hs.advanced_ne hy]
        exact ⟨rfl, le_rfl, fun _ => le_rfl⟩
    have hclaims : ∀ y, claimCount y (s.threads u) ≠ 0 →
        stealOf (s'.queues y).tail = stealOf (s.queues y).tail ∧
          stolen (s.queues y) ≤ stolen (s'.queues y) := by
      intro y hy
      by_cases hyx : y = x
      · subst hyx
        rw [hs.queue_self]
        exact hclaim u hu hy
      · rw [hs.queue_ne hyx]
        exact ⟨rfl, le_rfl⟩
    by_cases hux : u = x
    · subst hux
      obtain ⟨hhead, hroom, hown⟩ := howner hu
      refine hok.frame hqueues hclaims ?_ ?_ ?_ ?_ (hspare u hu) <;> rw [hs.queue_self]
      exacts [hhead, hq.capacity, hroom, hown]
    · have hsame := hs.queue_ne hux
      refine hok.frame hqueues hclaims ?_ ?_ ?_ ?_ (hspare u hu) <;> rw [hsame]
      exact hok.own
  · -- At most one thread has a claim on a queue.
    have hsum := sum_update (fun _ pc => claimCount y pc) s.threads t pc'
    rw [hs.threads]
    have hold := h.claims y
    by_cases hy : y = x
    · subst hy
      rw [hs.queue_self]
      omega
    · rw [hs.queue_ne hy]
      have := hother y hy
      omega

/-! ### Regions and values -/

/-- An exchange of slots at one queue carries over to its regions. -/
theorem regions_exchange {y : Q} {A B : Multiset UInt32}
    (hthreads : s'.threads = Function.update s.threads t pc')
    (hmask : (s'.queues y).accessMask = (s.queues y).accessMask)
    (hlocal : A + ((liveSlots (s'.queues y) : Multiset UInt32) +
        (ownSlots (s.queues y).accessMask (s'.threads y) : Multiset UInt32) +
        (sourceSlots y (s.queues y).accessMask pc' : Multiset UInt32)) =
      B + ((liveSlots (s.queues y) : Multiset UInt32) +
        (ownSlots (s.queues y).accessMask (s.threads y) : Multiset UInt32) +
        (sourceSlots y (s.queues y).accessMask (s.threads t) : Multiset UInt32))) :
    A + regions s' y = B + regions s y := by
  have hsum := sum_update
    (fun _ pc => (sourceSlots y (s.queues y).accessMask pc : Multiset UInt32)) s.threads t pc'
  unfold regions
  rw [hmask]
  rw [← hthreads] at hsum
  ext i
  have hlocal := congrArg (Multiset.count i) hlocal
  have hsum := congrArg (Multiset.count i) hsum
  simp only [Multiset.count_add] at hlocal hsum ⊢
  omega

/-- The balance of values after a step, from the exchange that the step makes. -/
theorem SystemOk.values_exchange (h : SystemOk s)
    (hthreads : s'.threads = Function.update s.threads t pc')
    (hlocal : (s'.pushed : Multiset V) + unpublished pc' +
        ∑ y, slotValues (s.queues y) (regions s y) + inHand (s.threads t) + s.mpmc.items +
          s.popped =
      s.pushed + unpublished (s.threads t) + ∑ y, slotValues (s'.queues y) (regions s' y) +
        inHand pc' + s'.mpmc.items + s'.popped) :
    (s'.pushed : Multiset V) + ∑ u, unpublished (s'.threads u) =
      ∑ y, slotValues (s'.queues y) (regions s' y) + ∑ u, inHand (s'.threads u) +
        s'.mpmc.items + s'.popped := by
  classical
  have hold := h.values
  have hunpublished := sum_update (fun _ pc => unpublished pc) s.threads t pc'
  have hhand := sum_update (fun _ pc => inHand pc) s.threads t pc'
  rw [← hthreads] at hunpublished hhand
  ext v
  have hlocal := congrArg (Multiset.count v) hlocal
  have hold := congrArg (Multiset.count v) hold
  have hunpublished := congrArg (Multiset.count v) hunpublished
  have hhand := congrArg (Multiset.count v) hhand
  simp only [Multiset.count_add] at hlocal hold hunpublished hhand ⊢
  omega

end Kyron.Proofs.Containers
