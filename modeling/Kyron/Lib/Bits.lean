import Mathlib.Data.Nat.Bitwise

/-!
# `Kyron.Lib.Bits`: bit counts, rotations and block numbers of machine words

Facts about fixed-width words that a bitmap or a radix structure needs, over any width. They
name nothing of the runtime.

* `ctz_eq`: the trailing zeros of a word with a known lowest bit.
* `ctz_rotateRight`: a rotation that loses no set bit moves the lowest bit down by the
  rotation.
* `xor_lt_two_pow_iff`: two numbers differ below bit `k` only, exactly when they are in the
  same block of `2 ^ k`.
* `sub_clz_lt_iff`: the position of the highest bit of a word, from its leading zeros.
* `uint64_alignDown`: clearing the low `k` bits of a `UInt64` rounds it down to its block.
* `and_ne_zero_iff`: two words have a common bit.
* `and_oneBit_eq_zero`, `getLsbD_or_oneBit`: reading and setting one bit through a mask.
-/

set_option autoImplicit false

namespace Kyron.Lib

/-- A word whose bit `k` is set and whose bits below `k` are clear has `k` trailing zeros. -/
theorem ctz_eq {w k : Nat} {x : BitVec w} (hk : x.getLsbD k = true)
    (hlow : ∀ j < k, x.getLsbD j = false) : x.ctz.toNat = k := by
  have hx : x ≠ 0#w := by
    rintro rfl
    simp at hk
  rcases Nat.lt_trichotomy x.ctz.toNat k with h | h | h
  · have hbit := BitVec.getLsbD_true_ctz_of_ne_zero hx
    rw [hlow _ h] at hbit
    cases hbit
  · exact h
  · rw [BitVec.getLsbD_false_of_lt_ctz h] at hk
    cases hk

/-- The lowest bit of a rotated word. No set bit is below `c`, so the rotation by `c` moves
every set bit down by `c` and wraps none of them around. -/
theorem ctz_rotateRight {w c : Nat} {x : BitVec w} (hx : x ≠ 0#w) (hc : c < w)
    (hlow : ∀ i, x.getLsbD i = true → c ≤ i) :
    (x.rotateRight c).ctz.toNat + c = x.ctz.toNat := by
  have hbit := BitVec.getLsbD_true_ctz_of_ne_zero hx
  have hle := hlow _ hbit
  have hlt : x.ctz.toNat < w := BitVec.lt_of_getLsbD hbit
  have hrot : (x.rotateRight c).ctz.toNat = x.ctz.toNat - c := by
    apply ctz_eq
    -- Below `w - c` the rotated word reads the bit that is `c` places up.
    · rw [BitVec.getLsbD_rotateRight_of_lt hc]
      rw [show decide (x.ctz.toNat - c < w - c) = true from decide_eq_true (by omega)]
      rw [show c + (x.ctz.toNat - c) = x.ctz.toNat by omega]
      exact hbit
    · intro j hj
      rw [BitVec.getLsbD_rotateRight_of_lt hc]
      rw [show decide (j < w - c) = true from decide_eq_true (by omega)]
      exact BitVec.getLsbD_false_of_lt_ctz (by omega)
  omega

/-- Two numbers agree from bit `k` upwards exactly when their exclusive or is below
`2 ^ k`. -/
theorem xor_lt_two_pow_iff (a b k : Nat) : a ^^^ b < 2 ^ k ↔ a / 2 ^ k = b / 2 ^ k := by
  rw [← Nat.shiftRight_eq_div_pow, ← Nat.shiftRight_eq_div_pow, ← Nat.xor_eq_zero_iff,
    ← Nat.shiftRight_xor_distrib, Nat.shiftRight_eq_div_pow, Nat.div_eq_zero_iff]
  have := Nat.two_pow_pos k
  omega

/-- The highest set bit of a nonzero word is below `j` exactly when the word is below
`2 ^ j`. -/
theorem sub_clz_lt_iff {w : Nat} {x : BitVec w} (hw : 0 < w) (hx : x ≠ 0#w) (j : Nat) :
    w - 1 - x.clz.toNat < j ↔ x.toNat < 2 ^ j := by
  have hge := BitVec.two_pow_sub_clz_le_toNat_of_ne_zero hw hx
  have hlt := BitVec.toNat_lt_two_pow_sub_clz (x := x)
  constructor
  · intro h
    exact Nat.lt_of_lt_of_le hlt (Nat.pow_le_pow_right (by decide) (by omega))
  · intro h
    exact (Nat.pow_lt_pow_iff_right (by decide)).mp (Nat.lt_of_le_of_lt hge h)

/-- Clearing the low `k` bits of a 64-bit word rounds it down to a multiple of `2 ^ k`. -/
theorem uint64_alignDown (x m : UInt64) (k : Nat) (hm : m.toNat = 2 ^ k) :
    (x &&& ~~~(m - 1)).toNat = x.toNat / 2 ^ k * 2 ^ k := by
  have hpos := Nat.two_pow_pos k
  have hsub : (m - 1).toNat = 2 ^ k - 1 := by
    rw [UInt64.toNat_sub_of_le _ _ (by rw [UInt64.le_iff_toNat_le]; simp; omega), hm]
    rfl
  apply Nat.eq_of_testBit_eq
  intro i
  rw [UInt64.toNat_and, Nat.testBit_and, Nat.testBit_mul_two_pow, Nat.testBit_div_two_pow]
  have hnot : (~~~(m - 1)).toNat.testBit i = (decide (i < 64) && decide (k ≤ i)) := by
    have h : (~~~(m - 1)).toNat.testBit i = (~~~(m - 1)).toBitVec.getLsbD i := rfl
    rw [h, UInt64.toBitVec_not, BitVec.getLsbD_not]
    have hlow : (m - 1).toBitVec.getLsbD i = (m - 1).toNat.testBit i := rfl
    rw [hlow, hsub, Nat.testBit_two_pow_sub_one]
    by_cases hki : k ≤ i
    · simp [hki]
    · simp [hki, show i < k by omega]
  rw [hnot]
  by_cases hki : k ≤ i
  · by_cases hi : i < 64
    · simp [hki, hi, Nat.sub_add_cancel hki]
    · have hbig : x.toNat.testBit i = false :=
        Nat.testBit_lt_two_pow (Nat.lt_of_lt_of_le x.toNat_lt (Nat.pow_le_pow_right (by decide)
          (by omega)))
      simp [hki, hi, Nat.sub_add_cancel hki, hbig]
  · simp [hki]

/-- A word masked is not zero exactly when some bit of the mask is set in it. -/
theorem and_ne_zero_iff {w : Nat} {x m : BitVec w} :
    x &&& m ≠ 0#w ↔ ∃ i < w, x.getLsbD i = true ∧ m.getLsbD i = true := by
  constructor
  · intro hne
    by_contra hnone
    refine hne (BitVec.eq_of_getLsbD_eq fun i hi => ?_)
    rw [BitVec.getLsbD_and]
    by_contra hbit
    exact hnone ⟨i, hi, by simpa using hbit⟩
  · rintro ⟨i, -, hx, hm⟩ hzero
    have hget := congrArg (BitVec.getLsbD · i) hzero
    simp [hx, hm] at hget

/-- A bit of the word of one bit. -/
theorem getLsbD_oneBit {w i : Nat} (hi : i < w) (j : Nat) :
    (1#w <<< i).getLsbD j = decide (j = i) := by
  rw [← BitVec.twoPow_eq, BitVec.getLsbD_twoPow]
  simp [hi, eq_comm]

theorem and_oneBit_eq_zero {w i : Nat} (hi : i < w) (x : BitVec w) :
    x &&& 1#w <<< i = 0#w ↔ x.getLsbD i = false := by
  rw [← Bool.not_eq_true, ← not_iff_not, not_not, ← ne_eq, and_ne_zero_iff]
  constructor
  · rintro ⟨j, -, hx, hj⟩
    rw [getLsbD_oneBit hi, decide_eq_true_eq] at hj
    rwa [← hj]
  · intro hx
    exact ⟨i, hi, hx, by rw [getLsbD_oneBit hi, decide_eq_true rfl]⟩

theorem getLsbD_or_oneBit {w i : Nat} (hi : i < w) (x : BitVec w) (j : Nat) :
    (x ||| 1#w <<< i).getLsbD j = (x.getLsbD j || decide (j = i)) := by
  rw [BitVec.getLsbD_or, getLsbD_oneBit hi]

end Kyron.Lib
