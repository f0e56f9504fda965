import Kyron.Containers.Queue
import Kyron.Lib.RingBuffer
import Kyron.Lib.Wrap

/-!
# `Kyron.Proofs.Containers.Queue`: the ring behind the bounded queue is a list

`QueueHolds m g` says that the slots from `tail` on hold the list `g`, unread, and that `head` is
as far ahead. The counters are where they are: only their distance and their remainders by the
capacity matter. `push` appends (`QueueHolds.push`), `pop` and `next` take the first item
(`QueueHolds.pop`, `QueueHolds.next`).
-/

set_option autoImplicit false

namespace Kyron.Proofs.Containers

open Kyron.Containers
open Kyron.Lib

variable {V : Type} {m : Queue V} {g : List V} {v : V}

/-- The value of a slot that nobody has read. -/
def unread : Slot V → Option V
  | .full v => some v
  | _ => none

theorem unread_eq_some {slot : Slot V} : unread slot = some v ↔ slot = .full v := by
  cases slot <;> simp [unread]

/-- The slots by number. -/
def queueSlots (m : Queue V) (k : Nat) : Option V := unread (m.data (UInt64.ofNat k))

/-! ### Slots and counters -/

theorem queue_capacity_pos (m : Queue V) : 0 < m.capacity.toNat := pow_pos_of_exists m.capacity_pow

theorem queue_capacity_lt (m : Queue V) : m.capacity.toNat < 2 ^ 64 := m.capacity.toNat_lt

theorem queue_index_eq (m : Queue V) (x : UInt64) :
    m.index x = UInt64.ofNat (x.toNat % m.capacity.toNat) := by
  rw [Queue.index, ← toNat_and_sub_one m.capacity_pow, UInt64.ofNat_toNat]

/-- A later counter has the slot of the sum. -/
theorem queue_add_mod (m : Queue V) (x : UInt64) (n : Nat) :
    (x + UInt64.ofNat n).toNat % m.capacity.toNat = (x.toNat + n) % m.capacity.toNat := by
  rw [UInt64.toNat_add, UInt64.toNat_ofNat', Nat.add_mod_mod,
    Nat.mod_mod_of_dvd _ (dvd_two_pow m.capacity_pow)]

/-- Different slots of the ring have different indices. -/
theorem queue_ofNat_ne (m : Queue V) {i k : Nat} (hi : i < m.capacity.toNat)
    (hk : k < m.capacity.toNat) (hne : k ≠ i) : UInt64.ofNat k ≠ UInt64.ofNat i := by
  have hlt := queue_capacity_lt m
  intro heq
  have hnat := congrArg UInt64.toNat heq
  rw [UInt64.toNat_ofNat_of_lt' (hk.trans hlt), UInt64.toNat_ofNat_of_lt' (hi.trans hlt)] at hnat
  exact hne hnat

theorem queueSlots_set_ne (m : Queue V) (slot : Slot V) {i k : Nat} (hi : i < m.capacity.toNat)
    (hk : k < m.capacity.toNat) (hne : k ≠ i) :
    queueSlots (m.set (UInt64.ofNat i) slot) k = queueSlots m k := by
  show unread (if UInt64.ofNat k = UInt64.ofNat i then slot else m.data (UInt64.ofNat k)) = _
  rw [if_neg (queue_ofNat_ne m hi hk hne)]
  rfl

theorem queueSlots_set_self (m : Queue V) (slot : Slot V) (i : Nat) :
    queueSlots (m.set (UInt64.ofNat i) slot) i = unread slot := by
  show unread (if UInt64.ofNat i = UInt64.ofNat i then slot else m.data (UInt64.ofNat i)) = _
  rw [if_pos rfl]

/-! ### The list of a ring -/

/-- The ring holds the list. -/
structure QueueHolds (m : Queue V) (g : List V) : Prop where
  len : m.len.toNat = g.length
  length_le : g.length ≤ m.capacity.toNat
  ring : RingHolds m.capacity.toNat (queueSlots m) m.tail.toNat g

namespace QueueHolds

theorem isEmpty_iff (h : QueueHolds m g) : m.isEmpty = true ↔ g = [] := by
  have hlen := h.len
  rw [Queue.len, UInt64.toNat_sub] at hlen
  have hhead := m.head.toNat_lt
  have htail := m.tail.toNat_lt
  rw [Queue.isEmpty, beq_iff_eq, ← UInt64.toNat_inj, ← List.length_eq_zero_iff]
  constructor
  · intro heq
    omega
  · intro hzero
    omega

/-- The counter `head` is at the slot after the last item. -/
theorem head_eq (h : QueueHolds m g) : m.head = m.tail + UInt64.ofNat g.length := by
  rw [← h.len, UInt64.ofNat_toNat, Queue.len, UInt64.add_comm, UInt64.sub_add_cancel]

theorem index_head (h : QueueHolds m g) :
    m.index m.head = UInt64.ofNat ((m.tail.toNat + g.length) % m.capacity.toNat) := by
  rw [queue_index_eq, h.head_eq, queue_add_mod]

/-- The oldest item. -/
theorem data_tail (h : QueueHolds m (v :: g)) : m.data (m.index m.tail) = .full v := by
  rw [queue_index_eq]
  exact unread_eq_some.mp h.ring.head

/-- The oldest item leaves, whatever is written into its slot. -/
theorem rest (h : QueueHolds m (v :: g)) (slot : Slot V) :
    QueueHolds { m.set (m.index m.tail) slot with tail := m.tail + 1 } g := by
  have hpos := queue_capacity_pos m
  have hlen := h.len
  have hle := h.length_le
  rw [List.length_cons] at hlen hle
  constructor
  · -- The distance shrinks by one, also where `tail` wraps around.
    show (m.head - (m.tail + 1)).toNat = g.length
    rw [Queue.len, UInt64.toNat_sub] at hlen
    have htail := m.tail.toNat_lt
    rw [UInt64.toNat_sub, UInt64.toNat_add, UInt64.toNat_one]
    omega
  · show g.length ≤ m.capacity.toNat
    omega
  · show RingHolds m.capacity.toNat (queueSlots (m.set (m.index m.tail) slot))
      (m.tail + UInt64.ofNat 1).toNat g
    refine RingHolds.congr_start ?_ (queue_add_mod m m.tail 1).symm
    refine h.ring.tail.frame ?_
    intro i hi
    rw [queue_index_eq]
    refine queueSlots_set_ne m slot (Nat.mod_lt _ hpos) (Nat.mod_lt _ hpos) ?_
    -- The slots of the other items are less than a ring ahead.
    have hne := slot_ne (c := m.capacity.toNat) m.tail.toNat
      (show 0 < 1 + i by omega) (by omega)
    rw [Nat.add_assoc]
    exact hne.symm

theorem push (h : QueueHolds m g) (hroom : g.length < m.capacity.toNat) (v : V) :
    ∃ m', m.push v = (m', true) ∧ QueueHolds m' (g ++ [v]) ∧ m'.capacity = m.capacity := by
  have hpos := queue_capacity_pos m
  have hlt := queue_capacity_lt m
  have hlen := h.len
  -- The source compares for equality; the list is never longer than the ring.
  have hnot : m.len ≠ m.capacity := by
    intro heq
    rw [heq] at hlen
    omega
  refine ⟨_, if_neg hnot, ?_, rfl⟩
  constructor
  · show (m.head + 1 - m.tail).toNat = (g ++ [v]).length
    rw [Queue.len, UInt64.toNat_sub] at hlen
    rw [UInt64.toNat_sub, UInt64.toNat_add, UInt64.toNat_one, List.length_append,
      List.length_singleton]
    omega
  · show (g ++ [v]).length ≤ m.capacity.toNat
    rw [List.length_append, List.length_singleton]
    omega
  · show RingHolds m.capacity.toNat (queueSlots (m.set (m.index m.head) (.full v)))
      m.tail.toNat (g ++ [v])
    rw [h.index_head]
    refine h.ring.concat hroom (queueSlots_set_self m _ _) ?_
    intro k hk hne
    exact queueSlots_set_ne m _ (Nat.mod_lt _ hpos) hk hne

theorem push_full (h : QueueHolds m g) (hfull : m.capacity.toNat ≤ g.length) (v : V) :
    m.push v = (m, false) := by
  have hle := h.length_le
  refine if_pos (UInt64.toNat_inj.mp ?_)
  rw [h.len]
  omega

theorem pop (h : QueueHolds m (v :: g)) :
    ∃ m', m.pop = (m', some v) ∧ QueueHolds m' g ∧ m'.capacity = m.capacity := by
  have hnot : ¬ m.isEmpty = true := fun hempty => List.cons_ne_nil v g (h.isEmpty_iff.mp hempty)
  refine ⟨{ m.set (m.index m.tail) .uninit with tail := m.tail + 1 }, ?_, h.rest _, rfl⟩
  rw [Queue.pop, if_neg hnot]
  dsimp only
  rw [h.data_tail]
  rfl

theorem pop_nil (h : QueueHolds m []) : m.pop = (m, none) := if_pos (h.isEmpty_iff.mpr rfl)

theorem next (h : QueueHolds m (v :: g)) :
    m.next = some (m.index m.tail, { m with tail := m.tail + 1 }) := by
  have hnot : ¬ m.isEmpty = true := fun hempty => List.cons_ne_nil v g (h.isEmpty_iff.mp hempty)
  exact if_neg hnot

end QueueHolds

end Kyron.Proofs.Containers
