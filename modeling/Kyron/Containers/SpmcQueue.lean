import Mathlib.Algebra.Group.Nat.Defs

/-!
# `Kyron.Containers.SpmcQueue`: the stealing queue and the bounded queue behind it

The model of `SpmcStealQueue` in `containers/spmc_queue.rs` and of `MpmcQueue` in
`containers/mpmc_queue.rs`, as one thread sees them. The counters are the machine words of the
source and wrap around. `tail` packs two of them: `steal`, which marks the space that is still
in use, and `real_tail`, where the next item is taken.

The words that the operations compute from what they have loaded are functions of their own
(`advanceTail`, `claimTail`, `alignTail`, `stealCount`, `overflowCount`, `fetchCount`). The
operations of a single thread are in `Kyron.Containers.Sequential`, the interleaved ones in
`Kyron.Containers.SpmcSystem`.

A slot remembers whether its value was moved out by a read, since the source's slots are raw
memory and keep the bits.
-/

set_option autoImplicit false

namespace Kyron.Containers

/-- A slot of `data`. -/
inductive Slot (V : Type)
  /-- Never written. -/
  | uninit
  /-- Written and not yet read. -/
  | full (v : V)
  /-- Written, and read since. -/
  | moved (v : V)
  deriving DecidableEq, Repr

namespace Slot

variable {V : Type}

/-- The bits in the slot. -/
def value? : Slot V → Option V
  | .uninit => none
  | .full v | .moved v => some v

/-- The slot holds a value that nobody has read. -/
def isFull : Slot V → Bool
  | .full _ => true
  | _ => false

/-- The slot after a read. -/
def read : Slot V → Slot V
  | .full v => .moved v
  | slot => slot

end Slot

/-- `SpmcStealQueue`. The capacity is a power of two, which `new` asserts. -/
structure SpmcStealQueue (V : Type) where
  head : UInt32
  tail : UInt64
  accessMask : UInt32
  capacity : UInt32
  data : UInt32 → Slot V
  capacity_pow : ∃ k < 32, capacity.toNat = 2 ^ k
  accessMask_eq : accessMask = capacity - 1

/-- `unpack_tail`: the pair of `steal` and `real_tail`. -/
def unpackTail (value : UInt64) : UInt32 × UInt32 := ((value >>> 32).toUInt32, value.toUInt32)

/-- `pack_tail`. -/
def packTail (steal tail : UInt32) : UInt64 := (steal.toUInt64 <<< 32) ||| tail.toUInt64

/-- `count_internal`. -/
def countInternal (head : UInt32) (tail : UInt64) : UInt32 := head - (unpackTail tail).2

/-- The tail after the owner has taken `n` items: a steal in progress keeps its mark. -/
def advanceTail (tail : UInt64) (n : UInt32) : UInt64 :=
  let (steal, realTail) := unpackTail tail
  let next := realTail + n
  if steal = realTail then packTail next next else packTail steal next

/-- The tail after a stealer has claimed `n` items. -/
def claimTail (tail : UInt64) (n : UInt32) : UInt64 :=
  let (steal, realTail) := unpackTail tail
  packTail steal (realTail + n)

/-- The tail after a stealer has copied its items. -/
def alignTail (tail : UInt64) : UInt64 :=
  let (_, realTail) := unpackTail tail
  packTail realTail realTail

/-- How many items `steal_internal` takes, at least one. -/
def stealCount (head : UInt32) (tail : UInt64) (maxStealSize : UInt32) (divider : UInt8) : UInt32 :=
  max (min (countInternal head tail / divider.toUInt32) maxStealSize) 1

/-- How many items `push_to_mpmc` moves. -/
def overflowCount (head : UInt32) (tail : UInt64) (mpmcFreeSpace : UInt32)
    (divider : Option UInt8) : UInt32 :=
  min mpmcFreeSpace (countInternal head tail / (divider.getD 2).toUInt32)

/-- `MpmcQueue`: the items of its inner `Queue`, oldest first. -/
structure MpmcQueue (V : Type) where
  items : List V
  capacity : Nat
  length_le : items.length ≤ capacity

namespace MpmcQueue

variable {V : Type}

def new (capacity : Nat) : MpmcQueue V := ⟨[], capacity, Nat.zero_le _⟩

/-- `push`: refused when the queue is full. -/
def push (m : MpmcQueue V) (v : V) : Option (MpmcQueue V) :=
  if h : m.items.length = m.capacity then
    none
  else
    some ⟨m.items ++ [v], m.capacity, by
      have := m.length_le
      rw [List.length_append, List.length_singleton]
      omega⟩

/-- `QueuePtrIterator::next`: the oldest item leaves the queue. -/
def next (m : MpmcQueue V) : Option (V × MpmcQueue V) :=
  match h : m.items with
  | [] => none
  | v :: rest => some (v, ⟨rest, m.capacity, by
      have := m.length_le
      rw [h, List.length_cons] at this
      omega⟩)

/-- `mpmc_free_space` in `push_to_mpmc`. -/
def freeSpace (m : MpmcQueue V) : UInt32 := UInt32.ofNat (m.capacity - m.items.length)

end MpmcQueue

namespace SpmcStealQueue

variable {V : Type}

/-- `SpmcStealQueue::new`. -/
def new (size : UInt32) (h : ∃ k < 32, size.toNat = 2 ^ k) : SpmcStealQueue V where
  head := 0
  tail := 0
  accessMask := size - 1
  capacity := size
  data := fun _ => .uninit
  capacity_pow := h
  accessMask_eq := rfl

/-- The index of the slot of a counter. -/
def index (q : SpmcStealQueue V) (counter : UInt32) : UInt32 := counter &&& q.accessMask

/-- A value is written into a slot. -/
def write (q : SpmcStealQueue V) (i : UInt32) (v : V) : SpmcStealQueue V :=
  { q with data := fun j => if j = i then .full v else q.data j }

/-- A value is read out of a slot. -/
def read (q : SpmcStealQueue V) (i : UInt32) : SpmcStealQueue V :=
  { q with data := fun j => if j = i then (q.data i).read else q.data j }

/-- The test of `push_local_queue`: there is space up to the items being stolen. -/
def hasSpace (q : SpmcStealQueue V) (head : UInt32) (tail : UInt64) : Bool :=
  head - (unpackTail tail).1 < q.capacity

/-- How many items `fetch_from` may take from a bounded queue of `len` items. -/
def fetchCount (q : SpmcStealQueue V) (head : UInt32) (tail : UInt64) (len : Nat) : Nat :=
  min len (q.capacity - countInternal head tail).toNat

/-- `push_local_queue` when no other thread interferes; `none` says that the value comes
back. -/
def pushLocalQueue (q : SpmcStealQueue V) (v : V) : Option (SpmcStealQueue V) :=
  if q.hasSpace q.head q.tail then
    some { q.write (q.index q.head) v with head := q.head + 1 }
  else
    none

end SpmcStealQueue

end Kyron.Containers
