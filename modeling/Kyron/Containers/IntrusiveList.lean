import Mathlib.Logic.Function.Basic
import Kyron.Lib.Ring

/-!
# `Kyron.Containers.IntrusiveList`: the intrusive linked list

The model of `containers/intrusive_linked_list.rs`. The links live in the items, so the memory
is a map from the addresses of the links to their contents, shared by all lists. An item and
its link are at a fixed distance, so the address of the link stands for the item. `none` is
the null pointer. A list is a head pointer and a length; `none` as the head is
`NonNull::dangling()`.

Following a null pointer is undefined behaviour in the source. Here it ends the operation with
`Fault.nullDeref`. The debug assertions are off.

`remove` on a list of two or more items follows `next` until it meets the item or null.
`removeLoop` cuts that loop off after `fuel` iterations and answers `none` if it has not ended
by then.
-/

set_option autoImplicit false

namespace Kyron.Containers

/-- `Link`: the two pointers that an item carries. -/
@[ext] structure Link (P : Type) where
  prev : Option P
  next : Option P
  deriving DecidableEq, Repr

/-- The contents of the links, by address. -/
abbrev Memory (P : Type) := P → Link P

/-- Undefined behaviour. -/
inductive Fault
  | nullDeref
  deriving DecidableEq, Repr

/-- Follows a pointer. -/
def deref {P : Type} : Option P → Except Fault P
  | some p => .ok p
  | none => .error .nullDeref

namespace Memory

variable {P : Type} [DecidableEq P]

def setPrev (m : Memory P) (p : P) (value : Option P) : Memory P :=
  Function.update m p { m p with prev := value }

def setNext (m : Memory P) (p : P) (value : Option P) : Memory P :=
  Function.update m p { m p with next := value }

/-- `insert_link_before`. -/
def insertLinkBefore (m : Memory P) (link before : P) : Except Fault (Memory P) := do
  let left := (m before).prev
  let m := m.setPrev link left
  let l ← deref left
  let m := m.setNext l (some link)
  let right := before
  let m := m.setNext link (some right)
  .ok (m.setPrev right (some link))

/-- `remove_link`. -/
def removeLink (m : Memory P) (link : P) : Except Fault (Memory P) := do
  let left ← deref (m link).prev
  let right ← deref (m link).next
  let m := m.setNext left (some right)
  let m := m.setPrev right (some left)
  let m := m.setPrev link none
  .ok (m.setNext link none)

end Memory

/-- `List`: the head and the length. -/
structure IntrusiveList (P : Type) where
  head : Option P
  len : Nat
  deriving DecidableEq, Repr

namespace IntrusiveList

variable {P : Type} [DecidableEq P]

/-- `List::default`. -/
def empty : IntrusiveList P := ⟨none, 0⟩

/-- `push_back`. -/
def pushBack (l : IntrusiveList P) (m : Memory P) (item : P) :
    Except Fault (IntrusiveList P × Memory P) := do
  if l.len = 0 then
    let m := m.setPrev item (some item)
    let m := m.setNext item (some item)
    .ok (⟨some item, l.len + 1⟩, m)
  else
    let head ← deref l.head
    let m ← m.insertLinkBefore item head
    .ok (⟨l.head, l.len + 1⟩, m)

/-- `pop_front`. -/
def popFront (l : IntrusiveList P) (m : Memory P) :
    Except Fault (Option P × IntrusiveList P × Memory P) := do
  if 0 < l.len then
    let oldHead ← deref l.head
    let head ← deref (m oldHead).next
    let m ← m.removeLink oldHead
    .ok (some oldHead, ⟨some head, l.len - 1⟩, m)
  else
    .ok (none, l, m)

/-- `remove_internal`. The only item of a list is taken out without touching its link. -/
def removeInternal (l : IntrusiveList P) (m : Memory P) (link : P) :
    Except Fault (IntrusiveList P × Memory P) := do
  if some link = l.head then
    if l.len = 1 then
      .ok (⟨none, l.len - 1⟩, m)
    else
      let head ← deref (m link).next
      let m ← m.removeLink link
      .ok (⟨some head, l.len - 1⟩, m)
  else
    let m ← m.removeLink link
    .ok (⟨l.head, l.len - 1⟩, m)

/-- The loop of `remove_if`, with the iterations left and the current link. The predicate
carries a state, as an `FnMut` does. -/
def removeIfLoop {S : Type} (f : S → P → Bool × S) :
    Nat → Option P → IntrusiveList P → Memory P → S →
      Except Fault (IntrusiveList P × Memory P × S)
  | 0, _, l, m, st => .ok (l, m, st)
  | n + 1, curr, l, m, st => do
      let currentLink ← deref curr
      let next := (m currentLink).next
      let (remove, st) := f st currentLink
      if remove then
        let (l, m) ← l.removeInternal m currentLink
        removeIfLoop f n next l m st
      else
        removeIfLoop f n next l m st

/-- `remove_if`. -/
def removeIf {S : Type} (f : S → P → Bool × S) (l : IntrusiveList P) (m : Memory P) (st : S) :
    Except Fault (IntrusiveList P × Memory P × S) :=
  if l.len = 0 then .ok (l, m, st) else removeIfLoop f l.len l.head l m st

/-- The search loop of `remove` on a list of two or more items. -/
def removeLoop (l : IntrusiveList P) (m : Memory P) (item : P) :
    Nat → Option P → Option (Except Fault (Bool × IntrusiveList P × Memory P))
  | 0, _ => none
  | _ + 1, none => some (.ok (false, l, m))
  | fuel + 1, some curr =>
      if curr = item then
        some ((l.removeInternal m curr).map fun (l, m) => (true, l, m))
      else
        removeLoop l m item fuel (m curr).next

/-- `remove`, with at most `fuel` iterations of its loop. -/
def remove (l : IntrusiveList P) (m : Memory P) (item : P) (fuel : Nat) :
    Option (Except Fault (Bool × IntrusiveList P × Memory P)) :=
  match l.len with
  | 0 => some (.ok (false, l, m))
  | 1 => if some item = l.head then some (.ok (true, ⟨none, 0⟩, m)) else some (.ok (false, l, m))
  | _ => removeLoop l m item fuel l.head

/-- A call `remove(item)` ends with the result `r`. -/
def Remove (l : IntrusiveList P) (m : Memory P) (item : P)
    (r : Except Fault (Bool × IntrusiveList P × Memory P)) : Prop :=
  ∃ fuel, l.remove m item fuel = some r

/-- `remove` on the sequence of items that a list holds: the answer and what is left, or none
where the call never ends. -/
def removeSpec (xs : List P) (item : P) : Option (Bool × List P) :=
  if item ∈ xs then some (true, xs.erase item)
  else if xs.length ≤ 1 then some (false, xs)
  else none

/-- The items of the list, found by following `next` from the head. -/
def items (l : IntrusiveList P) (m : Memory P) : List P :=
  Lib.walk (fun p => (m p).next) l.len l.head

end IntrusiveList

end Kyron.Containers
