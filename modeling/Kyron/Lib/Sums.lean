import Mathlib.Algebra.BigOperators.Group.Finset.Piecewise

/-!
# `Kyron.Lib.Sums`: sums over a family of which one member changes

A system of finitely many parts is often measured by a sum over the parts, and one step
changes one part. `sum_update` balances the two sums without a subtraction, so it serves
multisets and natural numbers alike. `sum_single_add` is for a change that adds to one part.
-/

set_option autoImplicit false

namespace Kyron.Lib

/-- The sum over a family before and after one member is replaced: the old member and the new
sum weigh as much as the new member and the old sum. -/
theorem sum_update {ι α M : Type*} [Fintype ι] [DecidableEq ι] [AddCommMonoid M]
    (g : ι → α → M) (f : ι → α) (i : ι) (a : α) :
    g i (f i) + ∑ j, g j (Function.update f i a j) = g i a + ∑ j, g j (f j) := by
  rw [← Finset.add_sum_erase _ _ (Finset.mem_univ i),
    ← Finset.add_sum_erase _ (fun j => g j (f j)) (Finset.mem_univ i), Function.update_self]
  have hrest : ∑ j ∈ Finset.univ.erase i, g j (Function.update f i a j)
      = ∑ j ∈ Finset.univ.erase i, g j (f j) :=
    Finset.sum_congr rfl fun j hj => by rw [Function.update_of_ne (Finset.ne_of_mem_erase hj)]
  rw [hrest]
  exact add_left_comm _ _ _

/-- A family of which one member weighs `a` more. -/
theorem sum_single_add {ι M : Type*} [Fintype ι] [DecidableEq ι] [AddCommMonoid M] {f g : ι → M}
    (i : ι) (a : M) (h : ∀ j, f j = (if j = i then a else 0) + g j) : ∑ j, f j = a + ∑ j, g j := by
  rw [Finset.sum_congr rfl fun j _ => h j, Finset.sum_add_distrib,
    Finset.sum_ite_eq' Finset.univ i, if_pos (Finset.mem_univ i)]

end Kyron.Lib
