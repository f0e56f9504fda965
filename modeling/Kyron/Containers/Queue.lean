import Kyron.Containers.SpmcQueue

/-!
# `Kyron.Containers.Queue`: the ring behind the bounded queue

The model of `Queue` in `containers/queue.rs` and of `QueuePtrIterator` in
`containers/mpmc_queue.rs`. `MpmcQueue` is such a ring behind a mutex, so for one thread its
operations are those of `Queue`. A `usize` has 64 bits, and the counters wrap around, as they do
in a build without overflow checks.

`Kyron.Containers.MpmcQueue` is the same queue as a list. Here the counters, the mask and the
slots are those of the source.
-/

set_option autoImplicit false

namespace Kyron.Containers

/-- `Queue`. The capacity is a power of two, which `new` asserts. -/
structure Queue (V : Type) where
  data : UInt64 → Slot V
  head : UInt64
  tail : UInt64
  capacity : UInt64
  capacity_pow : ∃ k < 64, capacity.toNat = 2 ^ k

namespace Queue

variable {V : Type}

/-- `Queue::new`. -/
def new (capacity : UInt64) (h : ∃ k < 64, capacity.toNat = 2 ^ k) : Queue V where
  data := fun _ => .uninit
  head := 0
  tail := 0
  capacity := capacity
  capacity_pow := h

def len (m : Queue V) : UInt64 := m.head - m.tail

def isEmpty (m : Queue V) : Bool := m.head == m.tail

/-- The index of the slot of a counter. -/
def index (m : Queue V) (counter : UInt64) : UInt64 := counter &&& (m.capacity - 1)

/-- A slot is overwritten. -/
def set (m : Queue V) (i : UInt64) (slot : Slot V) : Queue V :=
  { m with data := fun j => if j = i then slot else m.data j }

def push (m : Queue V) (item : V) : Queue V × Bool :=
  if m.len = m.capacity then
    (m, false)
  else
    ({ m.set (m.index m.head) (.full item) with head := m.head + 1 }, true)

/-- `pop` leaves uninitialised memory in the slot. -/
def pop (m : Queue V) : Queue V × Option V :=
  if m.isEmpty then
    (m, none)
  else
    let i := m.index m.tail
    ({ m.set i .uninit with tail := m.tail + 1 }, (m.data i).value?)

/-- `QueuePtrIterator::next`: the index that the pointer stands for, and the queue without the
item. The bits stay in the slot. -/
def next (m : Queue V) : Option (UInt64 × Queue V) :=
  if m.isEmpty then
    none
  else
    some (m.index m.tail, { m with tail := m.tail + 1 })

end Queue

end Kyron.Containers
