import Mathlib.Data.Nat.ModEq

/-!
# `Kyron.Lib.Wrap`: counters that wrap around, and rings of slots

A counter is a 32-bit word. `dist a b` is how many increments lead from `a` to `b`. A ring of a
power of two of slots is addressed by the low bits of a counter: `x &&& mask`.
`ringSlots mask start n` lists the slots of `n` successive counters.

* `dist_add_dist`: distances add up as long as they stay below `2 ^ 32`.
* `ringSlots_add`: a run of slots splits at any point.
* `not_mem_ringSlots`: a counter at least `n` and less than a whole ring ahead has none of the
  `n` slots.
-/

set_option autoImplicit false

namespace Kyron.Lib

/-! ### Distances -/

/-- The number of increments from `a` to `b`. -/
def dist (a b : UInt32) : Nat := (b - a).toNat

theorem dist_lt (a b : UInt32) : dist a b < 2 ^ 32 := (b - a).toNat_lt

theorem add_dist (a b : UInt32) : a + UInt32.ofNat (dist a b) = b := by
  unfold dist
  rw [UInt32.ofNat_toNat, UInt32.add_comm, UInt32.sub_add_cancel]

theorem dist_add (a : UInt32) {n : Nat} (h : n < 2 ^ 32) : dist a (a + UInt32.ofNat n) = n := by
  unfold dist
  rw [UInt32.add_comm, UInt32.add_sub_cancel, UInt32.toNat_ofNat_of_lt' h]

@[simp] theorem dist_self (a : UInt32) : dist a a = 0 := by
  simp [dist]

theorem dist_eq_zero {a b : UInt32} : dist a b = 0 ↔ a = b := by
  constructor
  · intro h
    have hadd := add_dist a b
    rw [h] at hadd
    simpa using hadd
  · rintro rfl
    exact dist_self a

/-- Distances add up as long as they do not go round. -/
theorem dist_add_dist {a b c : UInt32} (h : dist a b + dist b c < 2 ^ 32) :
    dist a c = dist a b + dist b c := by
  have hc : a + UInt32.ofNat (dist a b + dist b c) = c := by
    rw [UInt32.ofNat_add, ← UInt32.add_assoc, add_dist, add_dist]
  rw [← dist_add a h, hc]

/-- The distance to a later counter. -/
theorem dist_add_right {a b : UInt32} {n : Nat} (h : dist a b + n < 2 ^ 32) :
    dist a (b + UInt32.ofNat n) = dist a b + n := by
  have hn : dist b (b + UInt32.ofNat n) = n := dist_add b (by omega)
  rw [dist_add_dist (by rw [hn]; exact h), hn]

/-- The distance from a later counter that is still before the end. -/
theorem dist_add_left {a b : UInt32} {n : Nat} (h : n ≤ dist a b) :
    dist (a + UInt32.ofNat n) b = dist a b - n := by
  have hlt := dist_lt a b
  have hb : (a + UInt32.ofNat n) + UInt32.ofNat (dist a b - n) = b := by
    rw [UInt32.add_assoc, ← UInt32.ofNat_add, Nat.add_sub_cancel' h, add_dist]
  have hd := dist_add (a + UInt32.ofNat n) (show dist a b - n < 2 ^ 32 by omega)
  rwa [hb] at hd

theorem toNat_min (a b : UInt32) : (min a b).toNat = min a.toNat b.toNat := by
  show (if a ≤ b then a else b).toNat = _
  rw [Nat.min_def]
  simp only [UInt32.le_iff_toNat_le]
  split <;> rfl

theorem toNat_max (a b : UInt32) : (max a b).toNat = max a.toNat b.toNat := by
  show (if a ≤ b then b else a).toNat = _
  rw [Nat.max_def]
  simp only [UInt32.le_iff_toNat_le]
  split <;> rfl

/-! ### Slots of a ring -/

section Ring

variable {capacity mask : UInt32}

/-- A power of two that fits the counters divides their range. -/
theorem dvd_two_pow {n w : Nat} (hpow : ∃ k < w, n = 2 ^ k) : n ∣ 2 ^ w := by
  obtain ⟨k, hk, hn⟩ := hpow
  rw [hn]
  exact Nat.pow_dvd_pow 2 hk.le

theorem pow_pos_of_exists {n w : Nat} (hpow : ∃ k < w, n = 2 ^ k) : 0 < n := by
  obtain ⟨k, -, hn⟩ := hpow
  rw [hn]
  exact Nat.two_pow_pos k

/-- The mask keeps the counter modulo the capacity. -/
theorem toNat_and_mask (hpow : ∃ k < 32, capacity.toNat = 2 ^ k) (hmask : mask = capacity - 1)
    (x : UInt32) : (x &&& mask).toNat = x.toNat % capacity.toNat := by
  obtain ⟨k, hk, hcap⟩ := hpow
  have hpos : 0 < 2 ^ k := Nat.two_pow_pos k
  have hlt : (2 : Nat) ^ k < 2 ^ 32 := Nat.pow_lt_pow_right (by decide) hk
  have hone : mask.toNat = 2 ^ k - 1 := by
    rw [hmask, UInt32.toNat_sub, hcap, UInt32.toNat_one]
    omega
  rw [UInt32.toNat_and, hone, Nat.and_two_pow_sub_one_eq_mod, hcap]

/-- Masking a counter before adding changes nothing. -/
theorem and_mask_add (hpow : ∃ k < 32, capacity.toNat = 2 ^ k) (hmask : mask = capacity - 1)
    (x y : UInt32) : ((x &&& mask) + y) &&& mask = (x + y) &&& mask := by
  have hdvd := dvd_two_pow hpow
  apply UInt32.toNat_inj.mp
  rw [toNat_and_mask hpow hmask, toNat_and_mask hpow hmask, UInt32.toNat_add, UInt32.toNat_add,
    toNat_and_mask hpow hmask, Nat.mod_mod_of_dvd _ hdvd, Nat.mod_mod_of_dvd _ hdvd,
    Nat.mod_add_mod]

/-- Less than a whole ring ahead there is another slot. -/
theorem and_mask_add_ne (hpow : ∃ k < 32, capacity.toNat = 2 ^ k) (hmask : mask = capacity - 1)
    (x : UInt32) {d : Nat} (hpos : 0 < d) (hlt : d < capacity.toNat) :
    (x + UInt32.ofNat d) &&& mask ≠ x &&& mask := by
  intro heq
  have hdvd := dvd_two_pow hpow
  have hd : d < 2 ^ 32 := hlt.trans capacity.toNat_lt
  have hmod := congrArg UInt32.toNat heq
  rw [toNat_and_mask hpow hmask, toNat_and_mask hpow hmask, UInt32.toNat_add,
    UInt32.toNat_ofNat_of_lt' hd, Nat.mod_mod_of_dvd _ hdvd] at hmod
  have hzero : Nat.ModEq capacity.toNat d 0 := Nat.ModEq.add_left_cancel' x.toNat hmod
  rw [Nat.ModEq, Nat.mod_eq_of_lt hlt, Nat.zero_mod] at hzero
  omega

/-- The slots of `n` successive counters. -/
def ringSlots (mask start : UInt32) (n : Nat) : List UInt32 :=
  (List.range n).map fun i => (start + UInt32.ofNat i) &&& mask

@[simp] theorem ringSlots_zero (mask start : UInt32) : ringSlots mask start 0 = [] := rfl

/-- A run of slots splits at any point. -/
theorem ringSlots_add (mask start : UInt32) (m n : Nat) :
    ringSlots mask start (m + n) =
      ringSlots mask start m ++ ringSlots mask (start + UInt32.ofNat m) n := by
  unfold ringSlots
  rw [List.range_add, List.map_append, List.map_map]
  congr 1
  apply List.map_congr_left
  intro i _
  simp only [Function.comp_apply, UInt32.ofNat_add, UInt32.add_assoc]

theorem ringSlots_one (mask start : UInt32) : ringSlots mask start 1 = [start &&& mask] := by
  simp [ringSlots]

/-- The first slot of a run. -/
theorem ringSlots_succ (mask start : UInt32) (n : Nat) :
    ringSlots mask start (n + 1) = (start &&& mask) :: ringSlots mask (start + 1) n := by
  rw [Nat.add_comm, ringSlots_add, ringSlots_one]
  rfl

/-- The last slot of a run. -/
theorem ringSlots_concat (mask start : UInt32) (n : Nat) :
    ringSlots mask start (n + 1) =
      ringSlots mask start n ++ [(start + UInt32.ofNat n) &&& mask] := by
  rw [ringSlots_add, ringSlots_one]

/-- A run may start at the slot of its first counter. -/
theorem ringSlots_and_mask_add (hpow : ∃ k < 32, capacity.toNat = 2 ^ k)
    (hmask : mask = capacity - 1) (x y : UInt32) (n : Nat) :
    ringSlots mask ((x &&& mask) + y) n = ringSlots mask (x + y) n := by
  apply List.map_congr_left
  intro i _
  rw [UInt32.add_assoc, and_mask_add hpow hmask, UInt32.add_assoc]

/-- A counter at least `n` and less than a whole ring ahead has none of the `n` slots. -/
theorem not_mem_ringSlots (hpow : ∃ k < 32, capacity.toNat = 2 ^ k) (hmask : mask = capacity - 1)
    {start x : UInt32} {n : Nat} (hn : n ≤ dist start x) (hx : dist start x < capacity.toNat) :
    x &&& mask ∉ ringSlots mask start n := by
  intro hmem
  obtain ⟨i, hi, heq⟩ := List.mem_map.mp hmem
  have hi := List.mem_range.mp hi
  -- From the counter `start + i` to `x` it is at least one step and less than a ring.
  have hx' : x = (start + UInt32.ofNat i) + UInt32.ofNat (dist start x - i) := by
    rw [UInt32.add_assoc, ← UInt32.ofNat_add, Nat.add_sub_cancel' (by omega), add_dist]
  rw [hx'] at heq
  exact and_mask_add_ne hpow hmask _ (by omega) (by omega) heq.symm

end Ring

/-- A 64-bit counter is masked in the same way. -/
theorem toNat_and_sub_one {capacity : UInt64} (hpow : ∃ k < 64, capacity.toNat = 2 ^ k)
    (x : UInt64) : (x &&& (capacity - 1)).toNat = x.toNat % capacity.toNat := by
  obtain ⟨k, hk, hcap⟩ := hpow
  have hpos : 0 < 2 ^ k := Nat.two_pow_pos k
  have hlt : (2 : Nat) ^ k < 2 ^ 64 := Nat.pow_lt_pow_right (by decide) hk
  have hone : (capacity - 1).toNat = 2 ^ k - 1 := by
    rw [UInt64.toNat_sub, hcap, UInt64.toNat_one]
    omega
  rw [UInt64.toNat_and, hone, Nat.and_two_pow_sub_one_eq_mod, hcap]

end Kyron.Lib
