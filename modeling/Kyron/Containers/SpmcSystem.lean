import Mathlib.Logic.Function.Basic
import Kyron.Containers.SpmcQueue
import Kyron.Lib.Transition

/-!
# `Kyron.Containers.SpmcSystem`: stealing queues under any interleaving

Any number of `SpmcStealQueue`s and one `MpmcQueue`. Each queue has one thread, its owner: the
thread that pushes to it, pops from it, fetches into it and steals into it from another queue.
Every load, store and compare-and-exchange of an atomic, every access to the lock of the
`MpmcQueue` and every read or write of a slot is a step of its own, and steps are sequentially
consistent. Under the lock an item moves between a slot and the `MpmcQueue` in one step.

The sums `dst_head + i` and `head + num_items` of the source wrap around here, as they do in a
build without overflow checks. With the checks a thread stops at such a sum, and a thread that
stops is a thread that makes no further step.

The history is kept next to the state: the values whose push was published, the values handed
out by pops, how far each `real_tail` has advanced in all, and whether a slot with an unread
value was overwritten or a slot without one was read.
-/

set_option autoImplicit false

namespace Kyron.Containers

/-- Where the owner of a queue stands. A value `v` in the first two groups is the value being
pushed. -/
inductive Pc (Q V : Type)
  | idle
  /-- A division by a `divider` of zero, or a read of a slot that was never written. -/
  | panicked
  /-- `push_local_queue`, before the load of `head`. `retry` says that it is the second call. -/
  | pushLoadHead (v : V) (retry : Bool)
  | pushLoadTail (v : V) (retry : Bool) (head : UInt32)
  | pushWrite (v : V) (head : UInt32)
  | pushStore (v : V) (head : UInt32)
  /-- `push_to_mpmc`, before the load of `head`. -/
  | overflowLoadHead (v : V)
  | overflowLock (v : V) (head : UInt32)
  | overflowLoadTail (v : V) (head mpmcFreeSpace : UInt32)
  | overflowExchange (v : V) (head mpmcFreeSpace : UInt32) (tail : UInt64)
  | overflowMove (v : V) (counter : UInt32) (left successful : Nat)
  | overflowUnlock (v : V) (successful : Nat)
  /-- `pop_local`, before the load of `tail`. -/
  | popLoadTail
  | popLoadHead (tail : UInt64)
  | popExchange (tail : UInt64) (head : UInt32)
  | popRead (i : UInt32)
  /-- `steal_into`, before the load of the own `head`. -/
  | stealLoadDstHead (src : Q) (divider : Option UInt8)
  | stealLoadDstTail (src : Q) (divider : Option UInt8) (dstHead : UInt32)
  /-- `steal_internal`, before the load of `tail`. -/
  | stealLoadTail (src : Q) (dstHead maxStealSize : UInt32) (divider : UInt8)
  /-- Before the load of `head`. `since` is how far `real_tail` had advanced at the load of
  `tail`. -/
  | stealLoadHead (src : Q) (dstHead maxStealSize : UInt32) (divider : UInt8) (tail : UInt64)
      (since : Nat)
  | stealExchange (src : Q) (dstHead maxStealSize : UInt32) (divider : UInt8) (tail : UInt64)
      (since : Nat) (head : UInt32)
  | stealRead (src : Q) (dstHead start count : UInt32) (i : Nat)
  | stealWrite (src : Q) (dstHead start count : UInt32) (i : Nat) (v : V)
  /-- After the items are copied, before the load of `tail`. -/
  | stealReload (src : Q) (dstHead count : UInt32)
  | stealAlign (src : Q) (dstHead count : UInt32) (tail : UInt64)
  | stealStore (dstHead count : UInt32)
  /-- `fetch_from`, before the load of `head`. -/
  | fetchLoadHead
  | fetchLoadTail (head : UInt32)
  | fetchLen (head : UInt32) (tail : UInt64)
  | fetchLock (head : UInt32) (numPossible : Nat)
  | fetchMove (head : UInt32) (numPossible numItems : Nat)
  | fetchStore (head : UInt32) (numItems : Nat)
  | fetchUnlock
  deriving DecidableEq, Repr

/-- The queues `Q` with their owners, the `MpmcQueue` with the holder of its lock, and the
history. -/
structure SpmcSystem (Q V : Type) where
  queues : Q → SpmcStealQueue V
  mpmc : MpmcQueue V
  lock : Option Q
  threads : Q → Pc Q V
  advanced : Q → Nat
  pushed : List V
  popped : List V
  fault : Bool

/-- What can happen. -/
inductive SpmcAction (Q V : Type)
  /-- The owner begins a `push`. -/
  | push (t : Q) (v : V)
  /-- The owner begins a `pop`. -/
  | pop (t : Q)
  /-- The owner begins a `steal_into` from another queue. -/
  | steal (t src : Q) (divider : Option UInt8)
  /-- The owner begins a `fetch_from`. -/
  | fetch (t : Q)
  /-- Some thread pushes to the `MpmcQueue`. -/
  | mpmcPush (v : V)
  /-- The owner makes its next step. -/
  | advance (t : Q)
  deriving DecidableEq, Repr

namespace SpmcSystem

variable {Q V : Type} [DecidableEq Q]

/-- New queues of the given sizes and a new `MpmcQueue`. -/
def new (sizes : Q → UInt32) (hsizes : ∀ q, ∃ k < 32, (sizes q).toNat = 2 ^ k)
    (mpmcCapacity : Nat) : SpmcSystem Q V where
  queues := fun q => .new (sizes q) (hsizes q)
  mpmc := .new mpmcCapacity
  lock := none
  threads := fun _ => .idle
  advanced := fun _ => 0
  pushed := []
  popped := []
  fault := false

def goto (s : SpmcSystem Q V) (t : Q) (pc : Pc Q V) : SpmcSystem Q V :=
  { s with threads := Function.update s.threads t pc }

def setQueue (s : SpmcSystem Q V) (x : Q) (q : SpmcStealQueue V) : SpmcSystem Q V :=
  { s with queues := Function.update s.queues x q }

/-- A slot write. It is a fault if the slot holds an unread value. -/
def writeSlot (s : SpmcSystem Q V) (x : Q) (i : UInt32) (v : V) : SpmcSystem Q V :=
  { s.setQueue x ((s.queues x).write i v) with
    fault := s.fault || ((s.queues x).data i).isFull }

/-- A slot read. It is a fault if the slot holds no unread value. -/
def readSlot (s : SpmcSystem Q V) (x : Q) (i : UInt32) : SpmcSystem Q V :=
  { s.setQueue x ((s.queues x).read i) with
    fault := s.fault || !((s.queues x).data i).isFull }

/-- A tail moves, and with it its `real_tail` by `n`. -/
def setTail (s : SpmcSystem Q V) (x : Q) (tail : UInt64) (n : UInt32) : SpmcSystem Q V :=
  { s.setQueue x { s.queues x with tail } with
    advanced := Function.update s.advanced x (s.advanced x + n.toNat) }

def setHead (s : SpmcSystem Q V) (x : Q) (head : UInt32) : SpmcSystem Q V :=
  s.setQueue x { s.queues x with head }

/-- The steps of `push`, with `push_to_mpmc`. -/
def advancePush (s : SpmcSystem Q V) (t : Q) : Option (SpmcSystem Q V) :=
  let q := s.queues t
  match s.threads t with
  | .pushLoadHead v retry => some (s.goto t (.pushLoadTail v retry q.head))
  | .pushLoadTail v retry head =>
      -- `push` tries `push_to_mpmc` once, and returns the value if there is still no space after.
      if q.hasSpace head q.tail then
        some (s.goto t (.pushWrite v head))
      else if retry then
        some (s.goto t .idle)
      else
        some (s.goto t (.overflowLoadHead v))
  | .pushWrite v head => some ((s.writeSlot t (q.index head) v).goto t (.pushStore v head))
  | .pushStore v head =>
      some { (s.setHead t (head + 1)).goto t .idle with pushed := s.pushed ++ [v] }
  | .overflowLoadHead v => some (s.goto t (.overflowLock v q.head))
  | .overflowLock v head =>
      if s.lock = none then
        some ({ s with lock := some t }.goto t (.overflowLoadTail v head s.mpmc.freeSpace))
      else
        none
  | .overflowLoadTail v head free => some (s.goto t (.overflowExchange v head free q.tail))
  | .overflowExchange v head free tail =>
      if q.tail = tail then
        let n := overflowCount head tail free none
        some ((s.setTail t (advanceTail tail n) n).goto t
          (.overflowMove v (unpackTail tail).2 n.toNat 0))
      else
        some (s.goto t (.overflowExchange v head free q.tail))
  | .overflowMove v _ 0 successful => some (s.goto t (.overflowUnlock v successful))
  | .overflowMove v counter (left + 1) successful =>
      let i := q.index counter
      match (q.data i).value? with
      | none => some ((s.readSlot t i).goto t .panicked)
      | some item =>
          match s.mpmc.push item with
          -- The value that was read is lost here: the source breaks out of its loop.
          | none => some ((s.readSlot t i).goto t (.overflowUnlock v successful))
          | some mpmc =>
              some ({ s.readSlot t i with mpmc }.goto t
                (.overflowMove v (i + 1) left (successful + 1)))
  | .overflowUnlock v successful =>
      if successful = 0 then
        some ({ s with lock := none }.goto t .idle)
      else
        some ({ s with lock := none }.goto t (.pushLoadHead v true))
  | _ => none

/-- The steps of `pop_local`. -/
def advancePop (s : SpmcSystem Q V) (t : Q) : Option (SpmcSystem Q V) :=
  let q := s.queues t
  match s.threads t with
  | .popLoadTail => some (s.goto t (.popLoadHead q.tail))
  | .popLoadHead tail =>
      if q.head = (unpackTail tail).2 then
        some (s.goto t .idle)
      else
        some (s.goto t (.popExchange tail q.head))
  | .popExchange tail _ =>
      if q.tail = tail then
        some ((s.setTail t (advanceTail tail 1) 1).goto t
          (.popRead (q.index (unpackTail tail).2)))
      else
        some (s.goto t (.popLoadHead q.tail))
  | .popRead i =>
      match (q.data i).value? with
      | none => some ((s.readSlot t i).goto t .panicked)
      | some v => some { (s.readSlot t i).goto t .idle with popped := s.popped ++ [v] }
  | _ => none

/-- The steps of `steal_into`, with `steal_internal`. -/
def advanceSteal (s : SpmcSystem Q V) (t : Q) : Option (SpmcSystem Q V) :=
  let dst := s.queues t
  match s.threads t with
  | .stealLoadDstHead src divider => some (s.goto t (.stealLoadDstTail src divider dst.head))
  | .stealLoadDstTail src divider dstHead =>
      let dstAvailSize := dstHead - (unpackTail dst.tail).1
      if dstAvailSize ≥ dst.capacity then
        some (s.goto t .idle)
      else
        some (s.goto t
          (.stealLoadTail src dstHead (dst.capacity - dstAvailSize) (divider.getD 0 + 2)))
  | .stealLoadTail src dstHead size divider =>
      some (s.goto t
        (.stealLoadHead src dstHead size divider (s.queues src).tail (s.advanced src)))
  | .stealLoadHead src dstHead size divider tail since =>
      let (steal, realTail) := unpackTail tail
      let head := (s.queues src).head
      if head = realTail then
        some (s.goto t .idle)
      else if steal ≠ realTail then
        -- Somebody else is stealing from the queue.
        some (s.goto t .idle)
      else if divider = 0 then
        some (s.goto t .panicked)
      else
        some (s.goto t (.stealExchange src dstHead size divider tail since head))
  | .stealExchange src dstHead size divider tail _ head =>
      let q := s.queues src
      if q.tail = tail then
        let count := stealCount head tail size divider
        let s := s.setTail src (claimTail tail count) count
        -- Only `real_tail` has moved. The slots stay reserved until `steal` is aligned with it.
        if count = 0 then
          some (s.goto t .idle)
        else
          some (s.goto t (.stealRead src dstHead (q.index (unpackTail tail).2) count 0))
      else
        some (s.goto t (.stealLoadHead src dstHead size divider q.tail (s.advanced src)))
  | .stealRead src dstHead start count i =>
      let q := s.queues src
      let j := q.index (start + UInt32.ofNat i)
      match (q.data j).value? with
      | none => some ((s.readSlot src j).goto t .panicked)
      | some v => some ((s.readSlot src j).goto t (.stealWrite src dstHead start count i v))
  | .stealWrite src dstHead start count i v =>
      let s := s.writeSlot t (dst.index (dstHead + UInt32.ofNat i)) v
      if i + 1 < count.toNat then
        some (s.goto t (.stealRead src dstHead start count (i + 1)))
      else
        some (s.goto t (.stealReload src dstHead count))
  | .stealReload src dstHead count =>
      some (s.goto t (.stealAlign src dstHead count (s.queues src).tail))
  | .stealAlign src dstHead count tail =>
      if (s.queues src).tail = tail then
        some ((s.setTail src (alignTail tail) 0).goto t (.stealStore dstHead count))
      else
        some (s.goto t (.stealAlign src dstHead count (s.queues src).tail))
  | .stealStore dstHead count => some ((s.setHead t (dstHead + count)).goto t .idle)
  | _ => none

/-- The steps of `fetch_from`. -/
def advanceFetch (s : SpmcSystem Q V) (t : Q) : Option (SpmcSystem Q V) :=
  let q := s.queues t
  match s.threads t with
  | .fetchLoadHead => some (s.goto t (.fetchLoadTail q.head))
  | .fetchLoadTail head => some (s.goto t (.fetchLen head q.tail))
  | .fetchLen head tail =>
      if s.lock = none then
        some (s.goto t (.fetchLock head (q.fetchCount head tail s.mpmc.items.length)))
      else
        none
  | .fetchLock head possible =>
      if s.lock = none then
        some ({ s with lock := some t }.goto t (.fetchMove head possible 0))
      else
        none
  | .fetchMove head possible items =>
      if items < possible then
        match s.mpmc.next with
        | none => some (s.goto t (.fetchStore head items))
        | some (v, mpmc) =>
            some ({ s.writeSlot t (q.index (head + UInt32.ofNat items)) v with mpmc }.goto t
              (.fetchMove head possible (items + 1)))
      else
        some (s.goto t (.fetchStore head items))
  | .fetchStore head items =>
      some ((s.setHead t (head + UInt32.ofNat items)).goto t .fetchUnlock)
  | .fetchUnlock => some ({ s with lock := none }.goto t .idle)
  | _ => none

/-- The step function. An owner begins an operation only after the one before has ended. -/
def step (s : SpmcSystem Q V) : SpmcAction Q V → Option (SpmcSystem Q V)
  | .push t v =>
      match s.threads t with
      | .idle => some (s.goto t (.pushLoadHead v false))
      | _ => none
  | .pop t =>
      match s.threads t with
      | .idle => some (s.goto t .popLoadTail)
      | _ => none
  | .steal t src divider =>
      match s.threads t with
      | .idle => if src = t then none else some (s.goto t (.stealLoadDstHead src divider))
      | _ => none
  | .fetch t =>
      match s.threads t with
      | .idle => some (s.goto t .fetchLoadHead)
      | _ => none
  | .mpmcPush v =>
      if s.lock = none then
        match s.mpmc.push v with
        | none => some s
        | some mpmc => some { s with mpmc, pushed := s.pushed ++ [v] }
      else
        none
  | .advance t =>
      s.advancePush t <|> s.advancePop t <|> s.advanceSteal t <|> s.advanceFetch t

end SpmcSystem

end Kyron.Containers
