import Mathlib.Logic.Basic

/-!
# `Kyron.Lib.RefCount`: a reference count and the references it counts

`RefCount` is the strong count of a shared allocation, with a record of how often its memory was
given back. Dropping the last reference gives it back.

`Counts c refs` says that the count is right for `refs` references: it is their number, and the
memory was given back exactly once if there are none, and not at all otherwise.

* `Counts.increment`: whoever has a reference can make another one.
* `Counts.decrement`: whoever has a reference can drop it.
* `Counts.released_eq_zero`: while there is a reference the memory is there.
-/

set_option autoImplicit false

namespace Kyron.Lib

structure RefCount where
  strong : Nat
  released : Nat
  deriving DecidableEq, Repr

namespace RefCount

/-- An allocation with `refs` references. -/
def new (refs : Nat) : RefCount := ⟨refs, 0⟩

def increment (c : RefCount) : RefCount := { c with strong := c.strong + 1 }

/-- The last reference gives the memory back. -/
def decrement (c : RefCount) : RefCount where
  strong := c.strong - 1
  released := if c.strong = 1 then c.released + 1 else c.released

/-- The count is right for `refs` references. -/
def Counts (c : RefCount) (refs : Nat) : Prop :=
  c.strong = refs ∧ c.released = if refs = 0 then 1 else 0

variable {c : RefCount} {refs : Nat}

theorem counts_new (refs : Nat) : Counts (new (refs + 1)) (refs + 1) := ⟨rfl, rfl⟩

theorem Counts.increment (h : Counts c refs) (hrefs : 0 < refs) :
    Counts c.increment (refs + 1) := by
  obtain ⟨hstrong, hreleased⟩ := h
  refine ⟨congrArg (· + 1) hstrong, ?_⟩
  rw [if_neg (Nat.pos_iff_ne_zero.mp hrefs)] at hreleased
  exact hreleased

theorem Counts.decrement (h : Counts c (refs + 1)) : Counts c.decrement refs := by
  obtain ⟨hstrong, hreleased⟩ := h
  refine ⟨congrArg (· - 1) hstrong, ?_⟩
  simp only [RefCount.decrement, hstrong, hreleased, Nat.add_eq_right, Nat.succ_ne_zero, if_false]

theorem Counts.released_eq_zero (h : Counts c refs) (hrefs : 0 < refs) : c.released = 0 := by
  rw [h.2, if_neg (Nat.pos_iff_ne_zero.mp hrefs)]

end RefCount

end Kyron.Lib
