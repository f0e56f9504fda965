import Kyron.Lib.Bits
import Kyron.Lib.Radix
import Kyron.Time.Driver

/-!
# `Kyron.Proofs.Time.Level`: the level of a timer

`compute_level_for_timer` takes the highest bit in which the deadline differs from the last
processed time. `computeLevelForTimer_le_iff` reads that as a statement about base-64
blocks: the level is at most `k` exactly when the two times are in the same block of
`64 ^ (k + 1)` milliseconds. `filed_computeLevelForTimer` restates it for `Filed`, the form
the wheel invariant uses.

The distance check of `register_timeout` bounds the difference of the two times, not their
exclusive or. `computeLevelForTimer_lt_maxLevels_iff` says when an accepted deadline has a
level: when no multiple of `2 ^ 30` lies between the last processed time and the deadline.
The first such multiple is `2 ^ 30` itself, reached after twelve days and a half.
-/

set_option autoImplicit false

namespace Kyron.Proofs.Time

open Kyron.Lib
open Kyron.Time

theorem sixtyFour_pow (k : Nat) : 64 ^ k = 2 ^ (6 * k) := by
  rw [Nat.pow_mul]

/-- The level of a deadline is at most `k` exactly when the deadline and the last processed
time are in the same block of `64 ^ (k + 1)` milliseconds. -/
theorem computeLevelForTimer_le_iff (last expireAt : UInt64) (k : Nat) :
    computeLevelForTimer last expireAt ≤ k ↔
      last.toNat / 64 ^ (k + 1) = expireAt.toNat / 64 ^ (k + 1) := by
  have hmask : (((1 : UInt64) <<< 6) - 1).toNat = 63 := by decide
  have hmasked : ((last ^^^ expireAt) ||| (((1 : UInt64) <<< 6) - 1)).toBitVec.toNat
      = (last.toNat ^^^ expireAt.toNat) ||| 63 := by
    rw [UInt64.toNat_toBitVec, UInt64.toNat_or, UInt64.toNat_xor, hmask]
  have hne : ((last ^^^ expireAt) ||| (((1 : UInt64) <<< 6) - 1)).toBitVec ≠ 0#64 := by
    intro h
    have hzero := congrArg BitVec.toNat h
    rw [hmasked, BitVec.toNat_ofNat, Nat.zero_mod, Nat.or_eq_zero_iff] at hzero
    exact absurd hzero.2 (by decide)
  have hclz := sub_clz_lt_iff (by decide : 0 < 64) hne (6 * (k + 1))
  rw [hmasked] at hclz
  -- The mask only fills in the lowest digit, which is below every bound used here.
  have hor : (last.toNat ^^^ expireAt.toNat) ||| 63 < 2 ^ (6 * (k + 1)) ↔
      last.toNat ^^^ expireAt.toNat < 2 ^ (6 * (k + 1)) := by
    constructor
    · exact Nat.lt_of_le_of_lt Nat.left_le_or
    · intro h
      refine Nat.or_lt_two_pow h (Nat.lt_of_lt_of_le (by decide : 63 < 2 ^ 6) ?_)
      exact Nat.pow_le_pow_right (by decide) (by omega)
  rw [sixtyFour_pow, ← xor_lt_two_pow_iff, ← hor, ← hclz]
  unfold computeLevelForTimer
  dsimp only
  omega

/-- A deadline that is not before the last processed time is filed at its level. -/
theorem filed_computeLevelForTimer {last expireAt : UInt64} (h : last ≤ expireAt) :
    Filed 64 (computeLevelForTimer last expireAt) last.toNat expireAt.toNat where
  window := (computeLevelForTimer_le_iff last expireAt _).mp (Nat.le_refl _)
  later := by
    intro hpos
    have hle : last.toNat ≤ expireAt.toNat := UInt64.le_iff_toNat_le.mp h
    refine Nat.lt_of_le_of_ne (Nat.div_le_div_right hle) fun heq => ?_
    have hlow := (computeLevelForTimer_le_iff last expireAt
      (computeLevelForTimer last expireAt - 1)).mpr (by rw [Nat.sub_add_cancel hpos]; exact heq)
    omega
  le := UInt64.le_iff_toNat_le.mp h

/-- A deadline has one of the five levels exactly when it agrees with the last processed time
on all bits from bit 30 upwards. -/
theorem computeLevelForTimer_lt_iff_shiftRight (last expireAt : UInt64) :
    computeLevelForTimer last expireAt < maxLevels ↔ last >>> 30 = expireAt >>> 30 := by
  rw [show computeLevelForTimer last expireAt < maxLevels
    ↔ computeLevelForTimer last expireAt ≤ 4 from Nat.lt_succ_iff, computeLevelForTimer_le_iff,
    ← UInt64.toNat_inj, UInt64.toNat_shiftRight, UInt64.toNat_shiftRight]
  rw [show (30 : UInt64).toNat % 64 = 30 from rfl, Nat.shiftRight_eq_div_pow,
    Nat.shiftRight_eq_div_pow, show (64 : Nat) ^ (4 + 1) = 2 ^ 30 by decide]

/-- The three answers of the checks of `register_timeout`, and when each is given. -/
theorem acceptsTimeout_cases {P W : Type} (s : Time.Inner P W) (expireAt : UInt64) :
    s.acceptsTimeout expireAt = .error .alreadyDone ∧ expireAt < s.lastCheckTime ∨
    s.acceptsTimeout expireAt = .error .wrongArgs ∧ s.lastCheckTime ≤ expireAt ∧
      maxTimeoutTime < expireAt - s.lastCheckTime ∨
    s.acceptsTimeout expireAt = .ok () ∧ s.lastCheckTime ≤ expireAt ∧
      expireAt - s.lastCheckTime ≤ maxTimeoutTime := by
  unfold Inner.acceptsTimeout
  by_cases hpast : expireAt < s.lastCheckTime
  · rw [if_pos hpast]
    exact Or.inl ⟨rfl, hpast⟩
  have hle := UInt64.not_lt.mp hpast
  rw [if_neg hpast]
  by_cases hfar : maxTimeoutTime < expireAt - s.lastCheckTime
  · rw [if_pos hfar]
    exact Or.inr (Or.inl ⟨rfl, hle, hfar⟩)
  · rw [if_neg hfar]
    exact Or.inr (Or.inr ⟨rfl, hle, UInt64.not_lt.mp hfar⟩)

/-- What `register_timeout` accepts is not before the last processed time. -/
theorem le_of_acceptsTimeout {P W : Type} {s : Time.Inner P W} {expireAt : UInt64}
    (haccept : s.acceptsTimeout expireAt = .ok ()) : s.lastCheckTime ≤ expireAt := by
  rcases acceptsTimeout_cases s expireAt with ⟨hno, -⟩ | ⟨hno, -⟩ | ⟨-, hle, -⟩
  · cases haccept.symm.trans hno
  · cases haccept.symm.trans hno
  · exact hle

/-- A deadline that `register_timeout` accepts indexes one of the five levels exactly when no
multiple of `2 ^ 30` is after the last processed time and not after the deadline. -/
theorem computeLevelForTimer_lt_maxLevels_iff {P W : Type} (s : Time.Inner P W) (expireAt : UInt64)
    (haccept : s.acceptsTimeout expireAt = .ok ()) :
    computeLevelForTimer s.lastCheckTime expireAt < maxLevels ↔
      ∀ k : Nat, s.lastCheckTime.toNat < k * 2 ^ 30 → expireAt.toNat < k * 2 ^ 30 := by
  have hle : s.lastCheckTime.toNat ≤ expireAt.toNat :=
    UInt64.le_iff_toNat_le.mp (le_of_acceptsTimeout haccept)
  rw [show computeLevelForTimer s.lastCheckTime expireAt < maxLevels
    ↔ computeLevelForTimer s.lastCheckTime expireAt ≤ 4 from Nat.lt_succ_iff,
    computeLevelForTimer_le_iff, show (64 : Nat) ^ (4 + 1) = 2 ^ 30 by decide]
  constructor
  · intro hblock k hk
    rw [← Nat.div_lt_iff_lt_mul (by decide)] at hk ⊢
    rw [← hblock]
    exact hk
  · intro hnone
    -- The first multiple after the last processed time ends the block of that time.
    have hnext := hnone (s.lastCheckTime.toNat / 2 ^ 30 + 1) (by omega)
    omega

/-- A deadline of one minute on a fresh driver. -/
theorem computeLevelForTimer_lt_maxLevels_minute :
    computeLevelForTimer (Inner.new () 0 : Time.Inner Unit Unit).lastCheckTime 60000 < maxLevels ↔
      ∀ k : Nat, (Inner.new () 0 : Time.Inner Unit Unit).lastCheckTime.toNat < k * 2 ^ 30 →
        (60000 : UInt64).toNat < k * 2 ^ 30 :=
  computeLevelForTimer_lt_maxLevels_iff (Inner.new () 0 : Time.Inner Unit Unit) 60000 (by decide)

/-- A driver that last processed its empty wheel at `2 ^ 30 - 1` milliseconds accepts a
deadline one millisecond ahead, and the level of that deadline is past the last one. -/
theorem computeLevelForTimer_past_last_level :
    ∃ s : Time.Inner (List NodeAddr) Unit,
      (Inner.new [] 0 : Time.Inner (List NodeAddr) Unit).processInternal (fixedPool 1) 1 1073741823
        = some (.ok (s, [])) ∧
      s.acceptsTimeout 1073741824 = .ok () ∧
      ¬ computeLevelForTimer s.lastCheckTime 1073741824 < maxLevels :=
  ⟨_, rfl, by decide, by decide⟩

end Kyron.Proofs.Time
