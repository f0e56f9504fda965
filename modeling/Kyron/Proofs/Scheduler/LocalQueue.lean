import Kyron.Containers.Sequential
import Kyron.Proofs.Containers.SpmcSystem
import Kyron.Scheduler.AsyncWorkers

/-!
# `Kyron.Proofs.Scheduler.LocalQueue`: the rings under the local queues are lists

The async workers have their local queues as lists (`LocalQueue`), on which a push or a take is one
step. The rings of `Kyron.Containers.SpmcSystem` do these in several steps, with other threads in
between. The list of a ring is its `contents`: the values from `real_tail` to `head`.

* `RingMove` is what a step of any thread does to a ring: a write to a free slot, a read, a
  `real_tail` that goes past items that are there, or a `head` that goes past reserved slots.
* `rings_refine_lists`: so each step pushes to the list, takes from its front or leaves it alone, in
  every run in which a fetch finds no steal in progress or no more items than fit.
-/

set_option autoImplicit false

namespace Kyron.Proofs.Scheduler

open Kyron.Containers
open Kyron.Containers.Sequential (contents)
open Kyron.Lib
open Kyron.Proofs.Containers
open Kyron.Scheduler
open SpmcSystem

/-! ### List queues -/

section Lists

variable {K : Type}

/-- Items go to the end of the list. -/
theorem items_push (q : LocalQueue K) (vs : List K) (h : q.taken ≤ q.pushed.length) :
    (q.push vs).items = q.items ++ vs :=
  List.drop_append_of_le_length h

/-- A take beyond the end leaves nothing. -/
theorem items_take_snd (q : LocalQueue K) (k : Nat) : (q.take k).2.items = q.items.drop k := by
  change q.pushed.drop (q.taken + min k q.items.length) = q.items.drop k
  rw [← List.drop_drop]
  change q.items.drop (min k q.items.length) = q.items.drop k
  rcases Nat.le_total k q.items.length with hle | hle
  · rw [Nat.min_eq_left hle]
  · rw [Nat.min_eq_right hle, List.drop_length, List.drop_eq_nil_of_le hle]

theorem items_take (q : LocalQueue K) (k : Nat) :
    (q.take k).1 ++ (q.take k).2.items = q.items := by
  rw [items_take_snd]
  exact List.take_append_drop k q.items

end Lists

/-! ### The list of a ring -/

variable {Q V : Type} [DecidableEq Q]
variable {s s' : SpmcSystem Q V} {t x : Q} {q q' : SpmcStealQueue V} {a : SpmcAction Q V}

theorem contents_eq_filterMap (q : SpmcStealQueue V) :
    contents q = (liveSlots q).filterMap fun i => (q.data i).value? := by
  rw [liveSlots, ringSlots, List.filterMap_map]
  rfl

/-- What a step does to a ring. -/
inductive RingMove (q : SpmcStealQueue V) : SpmcStealQueue V → Prop
  | same : RingMove q q
  | write (i : UInt32) (v : V) (hfree : (q.data i).isFull = false) : RingMove q (q.write i v)
  | read (i : UInt32) : RingMove q (q.read i)
  | tail (tail : UInt64) (n : UInt32) (hreal : realOf tail = realOf q.tail + n)
      (hn : n.toNat ≤ live q) : RingMove q { q with tail }
  | head (head : UInt32) (k : Nat) (hhead : head = q.head + UInt32.ofNat k)
      (hroom : stolen q + live q + k ≤ q.capacity.toNat) : RingMove q { q with head }

/-- The list gets items at its end, loses items at its front, or stays. -/
theorem RingMove.contents_cases (h : RingMove q q')
    (hfull : ∀ i ∈ liveSlots q, (q.data i).isFull = true) :
    contents q' = contents q ∨ (∃ vs, contents q' = contents q ++ vs) ∨
      ∃ k, contents q' = (contents q).drop k := by
  simp only [contents_eq_filterMap]
  cases h with
  | same => exact Or.inl rfl
  | write i v hfree =>
      refine Or.inl (List.filterMap_congr fun j hj => ?_)
      rw [write_of_ne q i v]
      rintro rfl
      rw [hfull j hj] at hfree
      cases hfree
  | read i =>
      -- A read marks the slot and leaves the bits.
      exact Or.inl (List.filterMap_congr fun j _ => by rw [value?_read])
  | tail tail n hreal hn =>
      have hmask : ({ q with tail } : SpmcStealQueue V).accessMask = q.accessMask := rfl
      have hsplit := liveSlots_take hmask rfl hreal hn
      refine Or.inr (Or.inr ⟨((ringSlots q.accessMask (realOf q.tail) n.toNat).filterMap fun i =>
        (q.data i).value?).length, ?_⟩)
      rw [hsplit, List.filterMap_append, List.drop_left]
  | head head k hhead hroom =>
      refine Or.inr (Or.inl ⟨(ringSlots q.accessMask q.head k).filterMap fun i =>
        (q.data i).value?, ?_⟩)
      have hmask : ({ q with head } : SpmcStealQueue V).accessMask = q.accessMask := rfl
      have hsplit := liveSlots_publish hmask rfl hhead hroom
      rw [hsplit, List.filterMap_append]

/-! ### The steps -/

theorem ringMove_update {y : Q} (h : RingMove (s.queues y) q') (x : Q) :
    RingMove (s.queues x) (Function.update s.queues y q' x) := by
  by_cases hx : x = y
  · subst hx
    rwa [Function.update_self]
  · rw [Function.update_of_ne hx]
    exact .same

variable [Fintype Q]

/-- The steps of `push`, with those that move items to the global queue. -/
theorem advancePush_ringMove (h : SystemOk s) (h' : SystemOk s') (hstep : s.advancePush t = some s')
    (x : Q) : RingMove (s.queues x) (s'.queues x) := by
  have hok := h.thread t
  unfold advancePush at hstep
  dsimp only at hstep
  repeat' split at hstep
  all_goals
    cases hstep
    try first
    | exact .same
    | exact ringMove_update (.read _) x
    | exact ringMove_update (.write _ _ (Bool.or_eq_false_iff.mp h'.fault).2) x
  · rename_i head hpc
    rw [hpc] at hok
    refine ringMove_update (.head _ 1 ?_ hok.room) x
    rw [← hok.head head rfl]
    rfl
  · rename_i head free tail hpc htail
    rw [hpc] at hok
    subst htail
    refine ringMove_update (.tail _ _ (realOf_advanceTail _ _) ?_) x
    have hle := (overflowCount_le head (s.queues t).tail free none).2
    rwa [live, ← hok.head head rfl]

/-- A `pop` moves the tail past one item, which is there. -/
theorem advancePop_ringMove (h : SystemOk s) (hstep : s.advancePop t = some s') (x : Q) :
    RingMove (s.queues x) (s'.queues x) := by
  have hok := h.thread t
  unfold advancePop at hstep
  dsimp only at hstep
  repeat' split at hstep
  all_goals
    cases hstep
    try first
    | exact .same
    | exact ringMove_update (.read _) x
  rename_i tail head hpc htail
  rw [hpc] at hok
  subst htail
  refine ringMove_update (.tail _ 1 (realOf_advanceTail _ _) ?_) x
  -- The tail is the one that was compared with `head`.
  refine Nat.one_le_iff_ne_zero.mpr fun h0 => ?_
  have hne : head ≠ realOf (s.queues t).tail := hok.locals
  rw [hok.head head rfl] at hne
  exact hne (Lib.dist_eq_zero.mp h0).symm

/-- A thief claims items of its victim, and publishes them in its own ring. -/
theorem advanceSteal_ringMove (h : SystemOk s) (h' : SystemOk s')
    (hguard : NoWrap s (.advance t)) (hstep : s.advanceSteal t = some s') (x : Q) :
    RingMove (s.queues x) (s'.queues x) := by
  have hok := h.thread t
  unfold advanceSteal at hstep
  dsimp only at hstep
  repeat' split at hstep
  all_goals
    cases hstep
    try first
    | exact .same
    | exact ringMove_update (.read _) x
    | exact ringMove_update (.write _ _ (Bool.or_eq_false_iff.mp h'.fault).2) x
    | rename_i hpc htail _
      have hle := (h.stealCount_le hguard hpc htail).2.1
      subst htail
      exact ringMove_update (.tail _ _ (realOf_claimTail _ _) hle) x
  · -- The end of a steal moves only the steal tail.
    rename_i hpc htail
    subst htail
    refine ringMove_update (.tail _ 0 ?_ (Nat.zero_le _)) x
    rw [realOf_alignTail, UInt32.add_zero]
  · -- The thief publishes what it has written to its own ring.
    rename_i dstHead count hpc
    rw [hpc] at hok
    refine ringMove_update (.head _ count.toNat ?_ hok.room) x
    rw [← hok.head dstHead rfl, UInt32.ofNat_toNat]

/-- A fetch writes to free slots, and then publishes them. -/
theorem advanceFetch_ringMove (h : SystemOk s) (h' : SystemOk s')
    (hstep : s.advanceFetch t = some s') (x : Q) : RingMove (s.queues x) (s'.queues x) := by
  have hok := h.thread t
  unfold advanceFetch at hstep
  repeat' split at hstep
  all_goals
    cases hstep
    try first
    | exact .same
    | exact ringMove_update (.write _ _ (Bool.or_eq_false_iff.mp h'.fault).2) x
  rename_i head items hpc
  rw [hpc] at hok
  refine ringMove_update (.head _ items ?_ hok.room) x
  rw [← hok.head head rfl]

/-- Every step of any thread, for every ring. -/
theorem step_ringMove (h : SystemOk s) (hguard : FetchGuarded s a) (hstep : s.step a = some s')
    (x : Q) : RingMove (s.queues x) (s'.queues x) := by
  have h' := Containers.step_ok h hguard.1 hguard.2 hstep
  cases ha : actor a with
  | none =>
      rw [(step_nobody hstep ha).2]
      exact .same
  | some t =>
      rcases ownStep_cases ha hstep with ⟨-, pc', -, rfl⟩ | rfl
      · exact .same
      · rcases advance_cases hstep with hpush | hpop | hsteal | hfetch
        · exact advancePush_ringMove h h' hpush x
        · exact advancePop_ringMove h hpop x
        · exact advanceSteal_ringMove h h' hguard.1 hsteal x
        · exact advanceFetch_ringMove h h' hfetch x

/-! ### Every run -/

/-- The list queue has the items of the ring. -/
def Lists (q : SpmcStealQueue V) (l : LocalQueue V) : Prop :=
  l.taken ≤ l.pushed.length ∧ l.items = contents q

/-- In every run in which a fetch finds no steal in progress or no more items than fit, each step
of any thread is a push, a take or nothing on the list of each queue. -/
theorem rings_refine_lists (sizes : Q → UInt32)
    (hsizes : ∀ q, ∃ k < 32, (sizes q).toNat = 2 ^ k) (mpmcCapacity : Nat)
    (hrun : Reaches SpmcSystem.step FetchGuarded (SpmcSystem.new sizes hsizes mpmcCapacity) s)
    (hguard : FetchGuarded s a) (hstep : s.step a = some s') {l : LocalQueue V}
    (hl : Lists (s.queues x) l) :
    ∃ l', Lists (s'.queues x) l' ∧
      (l' = l ∨ (∃ vs, l' = l.push vs) ∨ ∃ k, l' = (l.take k).2) := by
  have h : SystemOk s := by
    refine hrun.invariant (new_ok sizes hsizes mpmcCapacity) ?_
    rintro s a s' hok ⟨hwrap, hfits⟩ hstep
    exact Containers.step_ok hok hwrap hfits hstep
  have hfull : ∀ i ∈ liveSlots (s.queues x), ((s.queues x).data i).isFull = true := by
    intro i hi
    refine ((h.regions_nodup x).2 i).mp ?_
    exact Multiset.mem_add.mpr (Or.inl (Multiset.mem_add.mpr (Or.inl hi)))
  obtain ⟨htaken, hitems⟩ := hl
  rcases (step_ringMove h hguard hstep x).contents_cases hfull with heq | ⟨vs, heq⟩ | ⟨k, heq⟩
  · exact ⟨l, ⟨htaken, hitems.trans heq.symm⟩, Or.inl rfl⟩
  · refine ⟨l.push vs, ⟨?_, ?_⟩, Or.inr (Or.inl ⟨vs, rfl⟩)⟩
    · exact htaken.trans (List.length_append ▸ Nat.le_add_right _ _)
    · rw [items_push l vs htaken, hitems, heq]
  · refine ⟨(l.take k).2, ⟨?_, ?_⟩, Or.inr (Or.inr ⟨k, rfl⟩)⟩
    · have hlen : l.items.length = l.pushed.length - l.taken := List.length_drop
      change l.taken + min k l.items.length ≤ l.pushed.length
      omega
    · rw [items_take_snd, hitems, heq]

end Kyron.Proofs.Scheduler
