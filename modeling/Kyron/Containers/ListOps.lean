import Kyron.Containers.IntrusiveList

/-!
# `Kyron.Containers.ListOps`: sequences of operations on intrusive lists

The operations of `containers/intrusive_linked_list.rs` that change a list, as one type, and what
they do to a sequence of items.

The predicate of `remove_if` is an `FnMut`, so its answer may depend on the items it was called with
before. Here it is a function of these items, and the answer of the operation lists all its calls.

`pushBackDebug` is `push_back` in a build with debug assertions.
-/

set_option autoImplicit false

namespace Kyron.Containers

/-- An operation on a list. -/
inductive ListOp (P : Type)
  | pushBack (item : P)
  | popFront
  /-- The predicate gets the items of its earlier calls and the item. -/
  | removeIf (f : List P → P → Bool)
  | remove (item : P)

/-- What an operation answers. -/
inductive ListAnswer (P : Type)
  | pushed
  | popped (item : Option P)
  /-- The items that the predicate of `remove_if` was called with. -/
  | called (items : List P)
  | removed (found : Bool)
  deriving DecidableEq, Repr

/-- The predicate as the closure that notes its calls. -/
def logged {P : Type} (f : List P → P → Bool) (calls : List P) (item : P) : Bool × List P :=
  (f calls item, calls ++ [item])

/-- The items for which the predicate answers `false`. -/
def keep {P : Type} (f : List P → P → Bool) : List P → List P → List P
  | _, [] => []
  | calls, x :: xs =>
      if f calls x then keep f (calls ++ [x]) xs else x :: keep f (calls ++ [x]) xs

namespace ListOp

variable {P : Type} [DecidableEq P]

/-- The operation on a list ends with the result `r`. -/
def Ends (l : IntrusiveList P) (m : Memory P)
    (r : Except Fault (ListAnswer P × IntrusiveList P × Memory P)) : ListOp P → Prop
  | .pushBack item => r = (l.pushBack m item).map fun (l, m) => (.pushed, l, m)
  | .popFront => r = (l.popFront m).map fun (item, l, m) => (.popped item, l, m)
  | .removeIf f =>
      r = (l.removeIf (logged f) m []).map fun (l, m, calls) => (.called calls, l, m)
  | .remove item =>
      ∃ r', l.Remove m item r' ∧ r = r'.map fun (found, l, m) => (.removed found, l, m)

/-- The operation on a sequence of items. -/
def onSequence (xs : List P) : ListOp P → ListAnswer P × List P
  | .pushBack item => (.pushed, xs ++ [item])
  | .popFront => (.popped xs.head?, xs.tail)
  | .removeIf f => (.called xs, keep f [] xs)
  | .remove item => (.removed (decide (item ∈ xs)), xs.erase item)

/-- What the callers of `push_back` have to see to: the item is in no list. `refs` are the items of
the lists that share the memory. -/
def Allowed {L : Type} (refs : L → List P) : ListOp P → Prop
  | .pushBack item => ∀ i, item ∉ refs i
  | _ => True

end ListOp

/-! ### Debug assertions -/

/-- The assertions that `push_back` and `insert_link_before` make about a link. -/
def Link.isUnlinked {P : Type} (link : Link P) : Bool := link.prev.isNone && link.next.isNone

section

variable {P : Type} [DecidableEq P]

/-- `insert_link_before`, or none where a debug assertion fails. -/
def Memory.insertLinkBeforeDebug (m : Memory P) (link before : P) :
    Option (Except Fault (Memory P)) :=
  if (m link).isUnlinked then some (m.insertLinkBefore link before) else none

/-- `push_back`, or none where a debug assertion fails. -/
def IntrusiveList.pushBackDebug (l : IntrusiveList P) (m : Memory P) (item : P) :
    Option (Except Fault (IntrusiveList P × Memory P)) :=
  if l.len = 0 then
    if (m item).isUnlinked then
      let m := m.setPrev item (some item)
      let m := m.setNext item (some item)
      some (.ok (⟨some item, l.len + 1⟩, m))
    else
      none
  else
    match deref l.head with
    | .error fault => some (.error fault)
    | .ok head =>
        (m.insertLinkBeforeDebug item head).map fun r =>
          r.map fun m => (⟨l.head, l.len + 1⟩, m)

end

end Kyron.Containers
