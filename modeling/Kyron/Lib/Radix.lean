import Mathlib.Algebra.Order.Group.Nat

/-!
# `Kyron.Lib.Radix`: the levels of a radix structure

A radix structure of base `b` files a key under the level of the highest digit in which the
key differs from a moving reference. `Filed b l r k` says that the key `k` is filed at level
`l` for the reference `r`: the two agree above digit `l`, the key is later in digit `l` (at
level 0 it may be the reference itself), and the key is not before the reference.

The facts are about natural numbers only. `t / b ^ l` is the block of `t` at level `l`, and
`blockStart b l t` is where that block begins.

* `Filed.advance`: a key stays filed at its level while the reference moves forward and does
  not reach the block of the key.
* `lt_of_blockStart_lt`: blocks that begin in order hold keys in order.
* `Filed.lt_blockStart`: the block of a key above level 0 begins after the reference.
* `Filed.blockStart_lt_of_level_lt`: the block of a key at a lower level begins before the
  block of a key at a higher level.
-/

set_option autoImplicit false

namespace Kyron.Lib

/-- The first number of the level `l` block of `t`. -/
def blockStart (b l t : Nat) : Nat := t / b ^ l * b ^ l

/-- The block number one level up drops the lowest digit. -/
theorem block_succ (b l t : Nat) : t / b ^ (l + 1) = t / b ^ l / b := by
  rw [Nat.pow_succ, Nat.div_div_eq_div_mul]

theorem blockStart_le (b l t : Nat) : blockStart b l t ≤ t := Nat.div_mul_le_self t (b ^ l)

/-- Numbers in one block at some level are in one block at every level above. -/
theorem block_eq_of_le {b l l' s t : Nat} (hl : l ≤ l') (h : s / b ^ l = t / b ^ l) :
    s / b ^ l' = t / b ^ l' := by
  obtain ⟨d, rfl⟩ := Nat.exists_eq_add_of_le hl
  rw [Nat.pow_add, ← Nat.div_div_eq_div_mul, ← Nat.div_div_eq_div_mul, h]

/-- A number between two numbers of one block is in that block. -/
theorem block_eq_of_between {c r n k : Nat} (hrn : r ≤ n) (hnk : n ≤ k) (h : r / c = k / c) :
    n / c = k / c :=
  Nat.le_antisymm (Nat.div_le_div_right hnk) (h ▸ Nat.div_le_div_right hrn)

/-- The start of a block is in the block. -/
theorem block_blockStart {b : Nat} (hb : 0 < b) (l t : Nat) :
    blockStart b l t / b ^ l = t / b ^ l :=
  Nat.mul_div_cancel _ (Nat.pow_pos hb)

/-- The start of a block, from the block one level up and the digit. -/
theorem blockStart_eq (b l t : Nat) :
    t / b ^ (l + 1) * b ^ (l + 1) + t / b ^ l % b * b ^ l = blockStart b l t := by
  rw [block_succ, Nat.pow_succ, Nat.mul_comm (b ^ l) b, ← Nat.mul_assoc, ← Nat.add_mul,
    Nat.mul_comm _ b, Nat.div_add_mod]
  rfl

/-- A number whose block begins before a block of the same or a higher level is before every
number of that block: the higher block begins at a multiple of the lower size. -/
theorem lt_of_blockStart_lt {b l l' k k' : Nat} (hb : 0 < b) (hl : l ≤ l')
    (h : blockStart b l k < blockStart b l' k') : k < k' := by
  by_contra hle
  have hmultiple : blockStart b l' k' = k' / b ^ l' * b ^ (l' - l) * b ^ l := by
    rw [Nat.mul_assoc, ← Nat.pow_add, Nat.sub_add_cancel hl]
    rfl
  have hfits : k' / b ^ l' * b ^ (l' - l) ≤ k / b ^ l := by
    refine (Nat.le_div_iff_mul_le (Nat.pow_pos hb)).mpr ?_
    rw [← hmultiple]
    exact (blockStart_le b l' k').trans (Nat.not_lt.mp hle)
  rw [hmultiple] at h
  exact absurd h (Nat.not_lt.mpr (Nat.mul_le_mul_right _ hfits))

/-- The key `k` is filed at level `l` for the reference `r`. -/
structure Filed (b l r k : Nat) : Prop where
  window : r / b ^ (l + 1) = k / b ^ (l + 1)
  later : 0 < l → r / b ^ l < k / b ^ l
  le : r ≤ k

namespace Filed

variable {b l r k : Nat}

/-- A key stays filed at its level when the reference moves up to a point before the block of
the key. At level 0 the reference may reach the key itself. -/
theorem advance {n : Nat} (h : Filed b l r k) (hrn : r ≤ n) (hnk : n ≤ k)
    (hlater : 0 < l → n / b ^ l < k / b ^ l) : Filed b l n k where
  window := block_eq_of_between hrn hnk h.window
  later := hlater
  le := hnk

/-- Above level 0, the block of a filed key begins after the reference. -/
theorem lt_blockStart (h : Filed b l r k) (hb : 0 < b) (hl : 0 < l) : r < blockStart b l k :=
  (Nat.div_lt_iff_lt_mul (Nat.pow_pos hb)).mp (h.later hl)

/-- The block of a filed key never begins before the reference. -/
theorem le_blockStart (h : Filed b l r k) (hb : 0 < b) : r ≤ blockStart b l k := by
  cases l with
  | zero => simpa [blockStart] using h.le
  | succ l => exact Nat.le_of_lt (h.lt_blockStart hb (Nat.succ_pos l))

/-- A reference that moves to a point before the block of a key passes no key: the key stays
filed. -/
theorem advance_of_lt {n : Nat} (h : Filed b l r k) (hb : 0 < b) (hrn : r ≤ n)
    (hn : n < blockStart b l k) : Filed b l n k :=
  h.advance hrn (Nat.le_of_lt (Nat.lt_of_lt_of_le hn (blockStart_le b l k)))
    fun _ => (Nat.div_lt_iff_lt_mul (Nat.pow_pos hb)).mpr hn

/-- Two keys filed at the same level with different digits are in different blocks: the one
with the smaller digit begins first. -/
theorem blockStart_lt_of_digit_lt {k' : Nat} (h : Filed b l r k) (h' : Filed b l r k')
    (hb : 0 < b) (hd : k / b ^ l % b < k' / b ^ l % b) :
    blockStart b l k < blockStart b l k' := by
  rw [← blockStart_eq b l k, ← blockStart_eq b l k', ← h.window, ← h'.window]
  exact Nat.add_lt_add_left (Nat.mul_lt_mul_of_pos_right hd (Nat.pow_pos hb)) _

/-- The block of a key at a lower level begins before the block of a key at a higher level:
the first key shares the reference's block at the higher level, the second is past it. -/
theorem blockStart_lt_of_level_lt {l' k' : Nat} (h : Filed b l r k) (h' : Filed b l' r k')
    (hb : 0 < b) (hl : l < l') : blockStart b l k < blockStart b l' k' := by
  have hblock : blockStart b l k / b ^ (l + 1) = r / b ^ (l + 1) := by
    rw [block_succ, block_blockStart hb, ← block_succ, h.window]
  have hsame : blockStart b l k / b ^ l' = r / b ^ l' := block_eq_of_le hl hblock
  refine (Nat.div_lt_iff_lt_mul (Nat.pow_pos hb)).mp ?_
  rw [hsame]
  exact h'.later (by omega)

end Filed

end Kyron.Lib
