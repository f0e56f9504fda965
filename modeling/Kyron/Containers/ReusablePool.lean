import Mathlib.Algebra.GroupWithZero.Nat
import Mathlib.Data.Fin.Basic
import Kyron.Basic

/-!
# `Kyron.Containers.ReusablePool`: the round-robin pools of objects and of futures

The model of `ReusableObjects` in `containers/reusable_objects.rs` and of `ReusableBoxFuturePool` in
`futures/reusable_box_future.rs`. The two pools have the same protocol: a slot has a mark, `next`
takes a slot with one compare-exchange, the drop of a handle gives it back with another one, and the
drop of the pool decides slot by slot with a third one who has to release the memory. They differ in
what is in the memory. A pool of objects keeps its values until the memory is released, a pool of
futures writes a future into the slot that `next` takes and the handle drops it.

The pool has one owner, who makes one call after the other. The handles are on any threads. Every
compare-exchange and every use of the memory is a step. The values of a pool of objects are dropped
without a panic. `reusable_clear` and the drop of a future may panic, which leads to the same
compare-exchange of the guard. A `usize` has 64 bits, and `position` wraps around.
-/

set_option autoImplicit false

namespace Kyron.Containers

/-- `OBJECT_FREE`, `OBJECT_TAKEN` and `OBJECT_POOL_GONE`, and the same for futures. -/
inductive SlotMark
  | free
  | taken
  | poolGone
  deriving DecidableEq, Repr

/-- The two pools. The layouts of futures are `L`. -/
inductive PoolKind (L : Type)
  | objects
  | futures (memLayout : L)
  deriving DecidableEq, Repr

/-- The pool of objects has its values from the start. -/
def PoolKind.startsFull {L : Type} : PoolKind L → Bool
  | .objects => true
  | .futures _ => false

/-- Where a handle stands, with its slot. -/
inductive ObjectPc (n : Nat)
  /-- Not handed out yet. -/
  | unborn
  | live (slot : Fin n)
  /-- In `drop`, before `reusable_clear` or the drop of the future. -/
  | clearing (slot : Fin n)
  /-- In `drop` of the guard, before the compare-exchange. -/
  | swap (slot : Fin n)
  /-- The pool is gone. Before the memory is released. -/
  | release (slot : Fin n)
  | gone (slot : Fin n)
  /-- The `assert_eq` on the mark has failed. -/
  | failed (slot : Fin n)
  deriving DecidableEq, Repr

/-- Where the owner of the pool stands. -/
inductive OwnerPc (n : Nat) (H : Type)
  | idle
  /-- In `next`, after the compare-exchange, making the handle `h`. -/
  | claimed (slot : Fin n) (h : H)
  /-- In `drop` of the pool, before the compare-exchange for `index`. -/
  | dropSwap (index : Nat)
  /-- In `drop` of the pool, before the memory of the slot is released. -/
  | dropRelease (slot : Fin n)
  | gone
  /-- The `assert_eq` on the mark has failed. -/
  | failed
  deriving DecidableEq, Repr

/-- What a call of `next` returns. -/
inductive NextAnswer (H : Type)
  | ok (h : H)
  | error (e : CommonErrors)
  deriving DecidableEq, Repr

/-- A pool of `n` slots with its owner and its handles `H`. -/
structure ReusablePool (L H : Type) (n : Nat) where
  kind : PoolKind L
  states : Fin n → SlotMark
  position : UInt64
  owner : OwnerPc n H
  handles : H → ObjectPc n
  /-- There is a value in the slot. -/
  full : Fin n → Bool
  /-- A value was overwritten, or used or dropped where there is none. -/
  misused : Bool
  /-- How often the memory of the slot was released. -/
  released : Fin n → Nat
  /-- The answers of the calls of `next`. -/
  answers : List (NextAnswer H)

inductive PoolAction (L H : Type)
  /-- `ReusableObjects::next_object`, which makes the handle `h` if it succeeds. -/
  | nextObject (h : H)
  /-- `ReusableBoxFuturePool::next` with a future of the layout. -/
  | next (h : H) (layout : L)
  /-- The pool is dropped. -/
  | dropPool
  /-- The owner makes its next step. -/
  | owner
  /-- A handle is dropped. -/
  | drop (h : H)
  /-- A handle in its drop makes its next step. -/
  | handle (h : H)
  deriving DecidableEq, Repr

namespace ReusablePool

variable {L H : Type} {n : Nat}

/-- `ReusableObjects::new` and `ReusableBoxFuturePool::for_type`. -/
def new (kind : PoolKind L) : ReusablePool L H n where
  kind := kind
  states := fun _ => .free
  position := 0
  owner := .idle
  handles := fun _ => .unborn
  full := fun _ => kind.startsFull
  misused := false
  released := fun _ => 0
  answers := []

/-- The slot at `position % size`. -/
def index [NeZero n] (s : ReusablePool L H n) : Fin n := Fin.ofNat n s.position.toNat

def setMark (s : ReusablePool L H n) (slot : Fin n) (mark : SlotMark) : ReusablePool L H n :=
  { s with states := Function.update s.states slot mark }

def answer (s : ReusablePool L H n) (a : NextAnswer H) : ReusablePool L H n :=
  { s with answers := s.answers ++ [a] }

/-! ### The memory of a slot -/

/-- A value is written into the slot. -/
def writeValue (s : ReusablePool L H n) (slot : Fin n) : ReusablePool L H n :=
  { s with misused := s.misused || s.full slot, full := Function.update s.full slot true }

/-- The value in the slot is used. -/
def useValue (s : ReusablePool L H n) (slot : Fin n) : ReusablePool L H n :=
  { s with misused := s.misused || !s.full slot }

/-- `drop_in_place`. -/
def dropValue (s : ReusablePool L H n) (slot : Fin n) : ReusablePool L H n :=
  { s with misused := s.misused || !s.full slot, full := Function.update s.full slot false }

/-- What `next` does to the memory of the slot that it has taken. -/
def fillSlot (s : ReusablePool L H n) (slot : Fin n) : ReusablePool L H n :=
  match s.kind with
  | .objects => s
  | .futures _ => s.writeValue slot

/-- What the drop of a handle does to the memory before the compare-exchange. -/
def clearSlot (s : ReusablePool L H n) (slot : Fin n) : ReusablePool L H n :=
  match s.kind with
  | .objects => s.useValue slot
  | .futures _ => s.dropValue slot

/-- What is left in the slot is dropped, and the memory is released. -/
def releaseSlot (s : ReusablePool L H n) (slot : Fin n) : ReusablePool L H n :=
  let s :=
    match s.kind with
    | .objects => s.dropValue slot
    | .futures _ => s
  { s with released := Function.update s.released slot (s.released slot + 1) }

/-! ### The steps -/

section

variable [DecidableEq H]

def setHandle (s : ReusablePool L H n) (h : H) (pc : ObjectPc n) : ReusablePool L H n :=
  { s with handles := Function.update s.handles h pc }

/-- The compare-exchange of `next`. -/
def takeNext [NeZero n] (s : ReusablePool L H n) (h : H) : ReusablePool L H n :=
  if s.states s.index = .free then
    { s.setMark s.index .taken with owner := .claimed s.index h }
  else
    s.answer (.error .noData)

/-- The rest of `next`. -/
def finishNext (s : ReusablePool L H n) (slot : Fin n) (h : H) : ReusablePool L H n :=
  -- `replace_future` before `position` is counted up. The owner alone reads `position`.
  let s := s.fillSlot slot
  { (s.answer (.ok h)).setHandle h (.live slot) with position := s.position + 1, owner := .idle }

/-- The compare-exchange in the drop of the pool. -/
def swapGone (s : ReusablePool L H n) (slot : Fin n) : ReusablePool L H n :=
  match s.states slot with
  | .taken => { s.setMark slot .poolGone with owner := .dropSwap (slot + 1) }
  -- `Err(actual)`, and `assert_eq!(actual, OBJECT_FREE)`.
  | .free => { s with owner := .dropRelease slot }
  | .poolGone => { s with owner := .failed }

/-- The next step of the owner. -/
def stepOwner (s : ReusablePool L H n) : Option (ReusablePool L H n) :=
  match s.owner with
  | .claimed slot h => some (s.finishNext slot h)
  | .dropSwap index =>
      if h : index < n then some (s.swapGone ⟨index, h⟩) else some { s with owner := .gone }
  | .dropRelease slot => some { s.releaseSlot slot with owner := .dropSwap (slot + 1) }
  | .idle | .gone | .failed => none

/-- The compare-exchange in the drop of a handle. -/
def swapFree (s : ReusablePool L H n) (h : H) (slot : Fin n) : ReusablePool L H n :=
  match s.states slot with
  | .taken => (s.setMark slot .free).setHandle h (.gone slot)
  -- `Err(val)`, and `assert_eq!(val, OBJECT_POOL_GONE)`.
  | .poolGone => s.setHandle h (.release slot)
  | .free => s.setHandle h (.failed slot)

/-- The next step of a handle in its drop. -/
def stepHandle (s : ReusablePool L H n) (h : H) : Option (ReusablePool L H n) :=
  match s.handles h with
  | .clearing slot => some ((s.clearSlot slot).setHandle h (.swap slot))
  | .swap slot => some (s.swapFree h slot)
  | .release slot => some ((s.releaseSlot slot).setHandle h (.gone slot))
  | .unborn | .live _ | .gone _ | .failed _ => none

def step [NeZero n] [DecidableEq L] (s : ReusablePool L H n) :
    PoolAction L H → Option (ReusablePool L H n)
  | .nextObject h =>
      match s.kind, s.owner, s.handles h with
      | .objects, .idle, .unborn => some (s.takeNext h)
      | _, _, _ => none
  | .next h layout =>
      match s.kind, s.owner, s.handles h with
      | .futures memLayout, .idle, .unborn =>
          -- The layout is checked before the slot is looked at.
          if layout = memLayout then some (s.takeNext h)
          else some (s.answer (.error .genericError))
      | _, _, _ => none
  | .dropPool =>
      match s.owner with
      | .idle => some { s with owner := .dropSwap 0 }
      | _ => none
  | .owner => s.stepOwner
  | .drop h =>
      match s.handles h with
      | .live slot => some (s.setHandle h (.clearing slot))
      | _ => none
  | .handle h => s.stepHandle h

end

end ReusablePool

end Kyron.Containers
