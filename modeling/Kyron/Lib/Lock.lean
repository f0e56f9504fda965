import Mathlib.Logic.Basic

/-!
# `Kyron.Lib.Lock`: a lock and those who stand in its locked parts

`Locked lock inside` says that whoever is inside a locked part has the lock. `LockMove` is what a
step of one party can do: it does not enter and leaves the lock alone, or it takes the free lock, or
it leaves and frees the lock.

* `Locked.unique`: at most one party is inside.
* `Locked.move`: such a step keeps `Locked`.
-/

set_option autoImplicit false

namespace Kyron.Lib

variable {A : Type*} {lock lock' : Option A} {inside inside' : A → Prop} {a : A}

/-- Whoever is inside has the lock. -/
def Locked (lock : Option A) (inside : A → Prop) : Prop := ∀ a, inside a → lock = some a

theorem Locked.unique {b : A} (h : Locked lock inside) (ha : inside a) (hb : inside b) : a = b :=
  Option.some.inj ((h a ha).symm.trans (h b hb))

/-- What a step of the party `a` does to the lock. `before` and `after` say whether it is inside. -/
inductive LockMove (a : A) (lock lock' : Option A) (before after : Prop) : Prop
  | keep (hlock : lock' = lock) (hinside : after → before)
  | acquire (hfree : lock = none) (htaken : lock' = some a)
  | release (hinside : before) (hfree : lock' = none) (hout : ¬ after)

theorem Locked.move (h : Locked lock inside) (hmove : LockMove a lock lock' (inside a) (inside' a))
    (hothers : ∀ b, b ≠ a → inside' b → inside b) : Locked lock' inside' := by
  intro b hb
  by_cases heq : b = a
  · subst heq
    cases hmove with
    | keep hlock hinside => rw [hlock, h b (hinside hb)]
    | acquire _ htaken => exact htaken
    | release _ _ hout => exact absurd hb hout
  · have hlock := h b (hothers b heq hb)
    cases hmove with
    | keep hsame _ => rw [hsame, hlock]
    | acquire hfree _ =>
        rw [hlock] at hfree
        cases hfree
    | release hinside _ _ =>
        rw [h a hinside] at hlock
        exact absurd (Option.some.inj hlock).symm heq

end Kyron.Lib
