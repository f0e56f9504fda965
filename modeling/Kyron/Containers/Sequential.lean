import Kyron.Containers.Queue
import Mathlib.Logic.Function.Basic

/-!
# `Kyron.Containers.Sequential`: the queues of the scheduler, one operation after the other

The operations of `SpmcStealQueue` on the rings themselves, when no other thread interferes: every
`compare_exchange` succeeds at once, and a steal is over before the next operation starts.
Additions wrap around, also the ones that the source writes as `+` (`head + num_items` in
`fetch_from`, `dst_head + i` in `steal_internal`), as they do in a build without overflow checks.

`SchedulerQueues` has any number of stealing queues and one global queue, and `Op` is a call of one
of their operations. `BoundedLists` is what they are for: bounded lists, oldest item first, whose
operations are those of the same names. `SchedulerQueues.lists` reads the lists off the rings.
-/

set_option autoImplicit false

namespace Kyron.Containers.Sequential

variable {V : Type}

/-! ### The operations of `SpmcStealQueue` -/

/-- The loop of `push_to_mpmc` over the items it has claimed. It ends at a slot that was never
written, where the source reads uninitialised memory. -/
def moveToMpmc (q : SpmcStealQueue V) (mpmc : Queue V) (index successfulItems : UInt32) :
    Nat → SpmcStealQueue V × Queue V × UInt32
  | 0 => (q, mpmc, successfulItems)
  | left + 1 =>
      let i := q.index index
      match (q.data i).value? with
      | none => (q, mpmc, successfulItems)
      | some item =>
          match mpmc.push item with
          -- The item has left its slot already, so it is lost here.
          | (mpmc, false) => (q.read i, mpmc, successfulItems)
          | (mpmc, true) => moveToMpmc (q.read i) mpmc (i + 1) (successfulItems + 1) left

/-- `push_to_mpmc`. The free space of the global queue is cast to 32 bits. -/
def pushToMpmc (q : SpmcStealQueue V) (mpmc : Queue V) (divider : Option UInt8) :
    SpmcStealQueue V × Queue V × UInt32 :=
  let mpmcFreeSpace := (mpmc.capacity - mpmc.len).toUInt32
  let numItems := overflowCount q.head q.tail mpmcFreeSpace divider
  moveToMpmc { q with tail := advanceTail q.tail numItems } mpmc (unpackTail q.tail).2 0
    numItems.toNat

/-- `push`. The last component is the value of an `Err`. -/
def push (q : SpmcStealQueue V) (value : V) (mpmc : Queue V) :
    SpmcStealQueue V × Queue V × Option V :=
  match q.pushLocalQueue value with
  | some q => (q, mpmc, none)
  | none =>
      -- The default divider makes room for half of the queue.
      match pushToMpmc q mpmc none with
      | (q, mpmc, moved) =>
          if moved = 0 then
            (q, mpmc, some value)
          else
            match q.pushLocalQueue value with
            | some q => (q, mpmc, none)
            | none => (q, mpmc, some value)

/-- The loop of `fetch_from`, with the items it may still take. An item is copied as it lies in
memory. -/
def copyFrom (q : SpmcStealQueue V) (head : UInt32) (mpmc : Queue V) (numItems : Nat) :
    Nat → SpmcStealQueue V × Queue V × Nat
  | 0 => (q, mpmc, numItems)
  | left + 1 =>
      match mpmc.next with
      | none => (q, mpmc, numItems)
      | some (ptr, rest) =>
          let i := q.index (head + UInt32.ofNat numItems)
          let q := { q with data := fun j => if j = i then mpmc.data ptr else q.data j }
          -- The bits stay behind `tail`, but the item is no longer the ring's.
          copyFrom q head (rest.set ptr (mpmc.data ptr).read) (numItems + 1) left

def fetchFrom (q : SpmcStealQueue V) (mpmc : Queue V) : SpmcStealQueue V × Queue V × Nat :=
  let numPossible := q.fetchCount q.head q.tail mpmc.len.toNat
  match copyFrom q q.head mpmc 0 numPossible with
  | (q', mpmc, numItems) => ({ q' with head := q.head + UInt32.ofNat numItems }, mpmc, numItems)

def popLocal (q : SpmcStealQueue V) : SpmcStealQueue V × Option V :=
  let realTail := (unpackTail q.tail).2
  if q.head = realTail then
    (q, none)
  else
    let i := q.index realTail
    ({ q.read i with tail := advanceTail q.tail 1 }, (q.data i).value?)

/-- The loop of `steal_internal` over the items it has claimed. It ends at a slot that was never
written, where the source reads uninitialised memory. -/
def copyInto (src dst : SpmcStealQueue V) (startIdx dstHead : UInt32) (i : Nat) :
    Nat → SpmcStealQueue V × SpmcStealQueue V
  | 0 => (src, dst)
  | left + 1 =>
      let srcIndex := src.index (startIdx + UInt32.ofNat i)
      let dstIndex := dst.index (dstHead + UInt32.ofNat i)
      match (src.data srcIndex).value? with
      | none => (src, dst)
      | some item =>
          copyInto (src.read srcIndex) (dst.write dstIndex item) startIdx dstHead (i + 1) left

def stealInternal (src dst : SpmcStealQueue V) (dstHead maxStealSize : UInt32) (divider : UInt8) :
    SpmcStealQueue V × SpmcStealQueue V × UInt32 :=
  let (steal, realTail) := unpackTail src.tail
  if src.head = realTail then
    (src, dst, 0)
  else if steal ≠ realTail then
    -- Another thread is stealing from this queue.
    (src, dst, 0)
  else
    let count := stealCount src.head src.tail maxStealSize divider
    let claimed := { src with tail := claimTail src.tail count }
    if count = 0 then
      (claimed, dst, 0)
    else
      match copyInto claimed dst (src.index realTail) dstHead 0 count.toNat with
      | (src, dst) => ({ src with tail := alignTail src.tail }, dst, count)

def stealInto (src dst : SpmcStealQueue V) (divider : Option UInt8) :
    SpmcStealQueue V × SpmcStealQueue V × Option UInt32 :=
  let dstAvailSize := dst.head - (unpackTail dst.tail).1
  if dst.capacity ≤ dstAvailSize then
    (src, dst, none)
  else
    match stealInternal src dst dst.head (dst.capacity - dstAvailSize) (divider.getD 0 + 2) with
    | (src, dst', n) =>
        if n = 0 then
          (src, dst', none)
        else
          (src, { dst' with head := dst.head + n }, some n)

def count (q : SpmcStealQueue V) : UInt32 := countInternal q.head q.tail

/-! ### The queues of a scheduler -/

/-- The stealing queues and the global queue. -/
structure SchedulerQueues (I V : Type) where
  queues : I → SpmcStealQueue V
  mpmc : Queue V

/-- A call of an operation. -/
inductive Op (I V : Type)
  | push (i : I) (value : V)
  | pop (i : I)
  | fetchFrom (i : I)
  | stealInto (src dst : I) (divider : Option UInt8)
  | count (i : I)
  | mpmcPush (item : V)
  | mpmcPop
  | mpmcLen
  deriving DecidableEq

/-- What a call returns. -/
inductive Answer (V : Type)
  /-- `Ok`, or `Err` with the value. -/
  | pushed (refused : Option V)
  | popped (value : Option V)
  | fetched (n : Nat)
  | stolen (n : Option Nat)
  | counted (n : Nat)
  | accepted (b : Bool)
  deriving DecidableEq

variable {I : Type} [DecidableEq I]

namespace SchedulerQueues

/-- Empty queues whose counters start anywhere. -/
def start (size : I → UInt32) (hsize : ∀ i, ∃ k < 32, (size i).toNat = 2 ^ k)
    (counter : I → UInt32) (mpmcSize : UInt64) (hmpmc : ∃ k < 64, mpmcSize.toNat = 2 ^ k)
    (mpmcCounter : UInt64) : SchedulerQueues I V where
  queues := fun i =>
    { SpmcStealQueue.new (size i) (hsize i) with
      head := counter i
      tail := packTail (counter i) (counter i) }
  mpmc := { Queue.new mpmcSize hmpmc with head := mpmcCounter, tail := mpmcCounter }

def setQueue (s : SchedulerQueues I V) (i : I) (q : SpmcStealQueue V) : SchedulerQueues I V :=
  { s with queues := Function.update s.queues i q }

def step (s : SchedulerQueues I V) : Op I V → SchedulerQueues I V × Answer V
  | .push i value =>
      match push (s.queues i) value s.mpmc with
      | (q, mpmc, refused) => ({ s.setQueue i q with mpmc }, .pushed refused)
  | .pop i =>
      match popLocal (s.queues i) with
      | (q, value) => (s.setQueue i q, .popped value)
  | .fetchFrom i =>
      match fetchFrom (s.queues i) s.mpmc with
      | (q, mpmc, n) => ({ s.setQueue i q with mpmc }, .fetched n)
  | .stealInto src dst divider =>
      match stealInto (s.queues src) (s.queues dst) divider with
      | (q, q', n) => ((s.setQueue src q).setQueue dst q', .stolen (n.map UInt32.toNat))
  | .count i => (s, .counted (count (s.queues i)).toNat)
  | .mpmcPush item =>
      match s.mpmc.push item with
      | (mpmc, b) => ({ s with mpmc }, .accepted b)
  | .mpmcPop =>
      match s.mpmc.pop with
      | (mpmc, value) => ({ s with mpmc }, .popped value)
  | .mpmcLen => (s, .counted s.mpmc.len.toNat)

end SchedulerQueues

/-! ### Bounded lists -/

/-- The items of each queue, oldest first, and the capacities. -/
@[ext]
structure BoundedLists (I V : Type) where
  items : I → List V
  capacity : I → Nat
  global : List V
  globalCapacity : Nat

namespace BoundedLists

def start (size : I → UInt32) (mpmcSize : UInt64) : BoundedLists I V where
  items := fun _ => []
  capacity := fun i => (size i).toNat
  global := []
  globalCapacity := mpmcSize.toNat

def setItems (t : BoundedLists I V) (i : I) (l : List V) : BoundedLists I V :=
  { t with items := Function.update t.items i l }

/-- The number of items that a push to a full queue moves. -/
def overflow (t : BoundedLists I V) (i : I) : Nat :=
  min (t.globalCapacity - t.global.length) (t.capacity i / 2)

/-- The number of items that `fetch_from` moves. -/
def fetched (t : BoundedLists I V) (i : I) : Nat :=
  min t.global.length (t.capacity i - (t.items i).length)

/-- The number of items that `steal_into` moves, if it moves any. -/
def stolen (t : BoundedLists I V) (src dst : I) (divider : Option UInt8) : Nat :=
  max 1 (min ((t.items src).length / ((divider.getD 0).toNat + 2))
    (t.capacity dst - (t.items dst).length))

def step (t : BoundedLists I V) : Op I V → BoundedLists I V × Answer V
  | .push i value =>
      let l := t.items i
      let n := t.overflow i
      if l.length < t.capacity i then
        (t.setItems i (l ++ [value]), .pushed none)
      else if n = 0 then
        (t, .pushed (some value))
      else
        -- The oldest items go to the end of the global queue.
        ({ t.setItems i (l.drop n ++ [value]) with global := t.global ++ l.take n }, .pushed none)
  | .pop i => (t.setItems i (t.items i).tail, .popped (t.items i).head?)
  | .fetchFrom i =>
      let n := t.fetched i
      ({ t.setItems i (t.items i ++ t.global.take n) with global := t.global.drop n }, .fetched n)
  | .stealInto src dst divider =>
      let l := t.items src
      let n := t.stolen src dst divider
      if l.length = 0 ∨ t.capacity dst ≤ (t.items dst).length then
        (t, .stolen none)
      else
        ((t.setItems src (l.drop n)).setItems dst (t.items dst ++ l.take n), .stolen (some n))
  | .count i => (t, .counted (t.items i).length)
  | .mpmcPush item =>
      if t.global.length < t.globalCapacity then
        ({ t with global := t.global ++ [item] }, .accepted true)
      else
        (t, .accepted false)
  | .mpmcPop => ({ t with global := t.global.tail }, .popped t.global.head?)
  | .mpmcLen => (t, .counted t.global.length)

/-- A steal is from another queue, and its divider does not overflow. -/
def Permitted (_ : BoundedLists I V) : Op I V → Prop
  | .stealInto src dst divider => src ≠ dst ∧ divider.getD 0 ≤ 253
  | _ => True

/-- At a push to a full queue, the free space of the global queue is a 32-bit number. -/
def FreeSpaceFits (t : BoundedLists I V) : Op I V → Prop
  | .push i _ => (t.items i).length < t.capacity i ∨ t.globalCapacity - t.global.length < 2 ^ 32
  | _ => True

end BoundedLists

/-! ### The lists of the rings -/

/-- The items between `real_tail` and `head`. -/
def contents (q : SpmcStealQueue V) : List V :=
  (List.range (count q).toNat).filterMap fun k =>
    (q.data (q.index ((unpackTail q.tail).2 + UInt32.ofNat k))).value?

/-- The items between `tail` and `head`. -/
def mpmcContents (m : Queue V) : List V :=
  (List.range m.len.toNat).filterMap fun k =>
    (m.data (m.index (m.tail + UInt64.ofNat k))).value?

def SchedulerQueues.lists (s : SchedulerQueues I V) : BoundedLists I V where
  items := fun i => contents (s.queues i)
  capacity := fun i => (s.queues i).capacity.toNat
  global := mpmcContents s.mpmc
  globalCapacity := s.mpmc.capacity.toNat

end Kyron.Containers.Sequential
