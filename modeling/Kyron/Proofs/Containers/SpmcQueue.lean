import Kyron.Containers.SpmcQueue
import Kyron.Lib.Wrap

/-!
# `Kyron.Proofs.Containers.SpmcQueue`: the counters of one stealing queue

A stealing queue is two distances: `stolen`, from `steal` to `real_tail`, and `live`, from
`real_tail` to `head`. This module says what each update of `tail` or `head` does to them. An
owner's take moves items out of `live` and, when a steal is in progress, into `stolen`
(`live_take`, `stolen_advance`). A claim moves them into `stolen` (`stolen_take`). A store of
`head` adds to `live` (`live_publish`).
-/

set_option autoImplicit false

namespace Kyron.Proofs.Containers

open Kyron.Containers
open Kyron.Lib

variable {V : Type}

/-! ### The packed tail -/

/-- The counter `steal` of a tail. -/
def stealOf (tail : UInt64) : UInt32 := (unpackTail tail).1

/-- The counter `real_tail` of a tail. -/
def realOf (tail : UInt64) : UInt32 := (unpackTail tail).2

@[simp] theorem unpackTail_packTail (steal tail : UInt32) :
    unpackTail (packTail steal tail) = (steal, tail) := by
  unfold unpackTail packTail
  rw [Prod.mk.injEq]
  constructor
  · apply UInt32.toBitVec_inj.mp
    ext i hi
    have hlow : i < 64 := by omega
    have hhigh : 32 + i < 64 := by omega
    simp [hlow, hhigh, BitVec.getLsbD_eq_getElem hi]
  · apply UInt32.toBitVec_inj.mp
    ext i hi
    simp

@[simp] theorem stealOf_packTail (steal tail : UInt32) : stealOf (packTail steal tail) = steal := by
  rw [stealOf, unpackTail_packTail]

@[simp] theorem realOf_packTail (steal tail : UInt32) : realOf (packTail steal tail) = tail := by
  rw [realOf, unpackTail_packTail]

@[simp] theorem realOf_advanceTail (tail : UInt64) (n : UInt32) :
    realOf (advanceTail tail n) = realOf tail + n := by
  unfold advanceTail
  dsimp only
  split <;> simp [realOf]

theorem stealOf_advanceTail (tail : UInt64) (n : UInt32) :
    stealOf (advanceTail tail n) =
      if stealOf tail = realOf tail then realOf tail + n else stealOf tail := by
  unfold advanceTail
  dsimp only
  by_cases h : (unpackTail tail).1 = (unpackTail tail).2
  · rw [if_pos h, stealOf_packTail, if_pos (show stealOf tail = realOf tail from h)]
    rfl
  · rw [if_neg h, stealOf_packTail, if_neg (show ¬ stealOf tail = realOf tail from h)]
    rfl

@[simp] theorem realOf_claimTail (tail : UInt64) (n : UInt32) :
    realOf (claimTail tail n) = realOf tail + n := by
  simp [claimTail, realOf]

@[simp] theorem stealOf_claimTail (tail : UInt64) (n : UInt32) :
    stealOf (claimTail tail n) = stealOf tail := by
  simp [claimTail, stealOf]

@[simp] theorem realOf_alignTail (tail : UInt64) : realOf (alignTail tail) = realOf tail := by
  simp [alignTail, realOf]

@[simp] theorem stealOf_alignTail (tail : UInt64) : stealOf (alignTail tail) = realOf tail := by
  simp [alignTail, realOf]

/-! ### The two distances -/

/-- How many counters are between `steal` and `real_tail`. -/
def stolen (q : SpmcStealQueue V) : Nat := dist (stealOf q.tail) (realOf q.tail)

/-- How many items are between `real_tail` and `head`. -/
def live (q : SpmcStealQueue V) : Nat := dist (realOf q.tail) q.head

/-- The slots of the items between `real_tail` and `head`. -/
def liveSlots (q : SpmcStealQueue V) : List UInt32 :=
  ringSlots q.accessMask (realOf q.tail) (live q)

variable {q q' : SpmcStealQueue V}

theorem stolen_eq_zero : stolen q = 0 ↔ stealOf q.tail = realOf q.tail := Lib.dist_eq_zero

theorem capacity_lt (q : SpmcStealQueue V) : q.capacity.toNat < 2 ^ 32 := q.capacity.toNat_lt

/-- The distance from `steal` to `head`. -/
theorem dist_steal_head (h : stolen q + live q ≤ q.capacity.toNat) :
    dist (stealOf q.tail) q.head = stolen q + live q := by
  have hlt := capacity_lt q
  exact dist_add_dist (by unfold stolen live at h; omega)

theorem live_take {n : UInt32} (hhead : q'.head = q.head)
    (htail : realOf q'.tail = realOf q.tail + n) (hn : n.toNat ≤ live q) :
    live q' = live q - n.toNat := by
  unfold live at hn ⊢
  rw [hhead, htail, ← Lib.dist_add_left hn, UInt32.ofNat_toNat]

theorem stolen_take {n : UInt32} (hsteal : stealOf q'.tail = stealOf q.tail)
    (htail : realOf q'.tail = realOf q.tail + n) (hn : n.toNat ≤ live q)
    (hroom : stolen q + live q ≤ q.capacity.toNat) : stolen q' = stolen q + n.toNat := by
  have hlt := capacity_lt q
  have hsum : dist (stealOf q.tail) (realOf q.tail) + n.toNat < 2 ^ 32 := by
    unfold stolen at hroom
    omega
  unfold stolen
  rw [hsteal, htail, ← Lib.dist_add_right hsum, UInt32.ofNat_toNat]

/-- When the owner takes `n` items, a steal in progress keeps `steal`; otherwise it goes along
with `real_tail`. -/
theorem stolen_advance {n : UInt32} (htail : q'.tail = advanceTail q.tail n)
    (hn : n.toNat ≤ live q) (hroom : stolen q + live q ≤ q.capacity.toNat) :
    (stolen q = 0 ∧ stolen q' = 0) ∨
      (stolen q ≠ 0 ∧ stealOf q'.tail = stealOf q.tail ∧ stolen q' = stolen q + n.toNat) := by
  have hsteal := stealOf_advanceTail q.tail n
  have hreal : realOf q'.tail = realOf q.tail + n := by rw [htail, realOf_advanceTail]
  by_cases hzero : stealOf q.tail = realOf q.tail
  · rw [if_pos hzero] at hsteal
    refine Or.inl ⟨stolen_eq_zero.mpr hzero, stolen_eq_zero.mpr ?_⟩
    rw [hreal, htail, hsteal]
  · rw [if_neg hzero] at hsteal
    have hsame : stealOf q'.tail = stealOf q.tail := by rw [htail, hsteal]
    exact Or.inr ⟨fun h0 => hzero (stolen_eq_zero.mp h0), hsame,
      stolen_take hsame hreal hn hroom⟩

theorem live_publish {k : Nat} (htail : q'.tail = q.tail)
    (hhead : q'.head = q.head + UInt32.ofNat k)
    (hroom : stolen q + live q + k ≤ q.capacity.toNat) : live q' = live q + k := by
  have hlt := capacity_lt q
  have hsum : dist (realOf q.tail) q.head + k < 2 ^ 32 := by
    unfold live at hroom
    omega
  unfold live
  rw [htail, hhead, Lib.dist_add_right hsum]

/-- The live slots after the first `n` of them are taken. -/
theorem liveSlots_take {n : UInt32} (hmask : q'.accessMask = q.accessMask)
    (hhead : q'.head = q.head)
    (htail : realOf q'.tail = realOf q.tail + n) (hn : n.toNat ≤ live q) :
    liveSlots q = ringSlots q.accessMask (realOf q.tail) n.toNat ++ liveSlots q' := by
  unfold liveSlots
  rw [live_take hhead htail hn, hmask, htail]
  nth_rewrite 1 [← Nat.add_sub_cancel' hn]
  rw [ringSlots_add, UInt32.ofNat_toNat]

/-- The live slots after the next `k` of them are published. -/
theorem liveSlots_publish {k : Nat} (hmask : q'.accessMask = q.accessMask)
    (htail : q'.tail = q.tail) (hhead : q'.head = q.head + UInt32.ofNat k)
    (hroom : stolen q + live q + k ≤ q.capacity.toNat) :
    liveSlots q' = liveSlots q ++ ringSlots q.accessMask q.head k := by
  unfold liveSlots
  rw [live_publish htail hhead hroom, hmask, htail, ringSlots_add]
  congr 2
  exact add_dist _ _

/-! ### The numbers of items that the operations compute -/

/-- `push_local_queue` finds space when there is some in front of `steal`. -/
theorem hasSpace_iff (h : stolen q + live q ≤ q.capacity.toNat) :
    q.hasSpace q.head q.tail = true ↔ stolen q + live q < q.capacity.toNat := by
  unfold SpmcStealQueue.hasSpace
  rw [decide_eq_true_iff, UInt32.lt_iff_toNat_lt, ← dist_steal_head h]
  rfl

theorem overflowCount_le (head : UInt32) (tail : UInt64) (free : UInt32) (divider : Option UInt8) :
    (overflowCount head tail free divider).toNat ≤ free.toNat ∧
      (overflowCount head tail free divider).toNat ≤ dist (realOf tail) head := by
  unfold overflowCount
  rw [toNat_min, UInt32.toNat_div]
  have hdiv : (countInternal head tail).toNat / (divider.getD 2).toUInt32.toNat ≤
      dist (realOf tail) head := Nat.div_le_self _ _
  omega

/-- A steal takes at least one item, at most what is there and at most what has space. -/
theorem stealCount_bounds {head : UInt32} {tail : UInt64} {size : UInt32} (divider : UInt8)
    (hhead : head ≠ realOf tail) (hsize : 0 < size.toNat) :
    0 < (stealCount head tail size divider).toNat ∧
      (stealCount head tail size divider).toNat ≤ dist (realOf tail) head ∧
      (stealCount head tail size divider).toNat ≤ size.toNat := by
  have hpos : 0 < dist (realOf tail) head :=
    Nat.pos_of_ne_zero fun h0 => hhead (Lib.dist_eq_zero.mp h0).symm
  have hdiv : (countInternal head tail).toNat / divider.toUInt32.toNat ≤
      dist (realOf tail) head := Nat.div_le_self _ _
  unfold stealCount
  rw [toNat_max, toNat_min, UInt32.toNat_div, UInt32.toNat_one]
  omega

/-- A fetch fits in front of `steal` when the tail it has loaded shows no steal in progress, or
when the items of the bounded queue fit there. -/
theorem fetchCount_le {head : UInt32} {tail : UInt64} {len : Nat}
    (hcap : dist (stealOf tail) head ≤ q.capacity.toNat)
    (hfits : stealOf tail = realOf tail ∨ len + dist (stealOf tail) head ≤ q.capacity.toNat) :
    q.fetchCount head tail len + dist (stealOf tail) head ≤ q.capacity.toNat := by
  unfold SpmcStealQueue.fetchCount
  rcases hfits with hsame | hfits
  · have hsub : (q.capacity - countInternal head tail).toNat =
        q.capacity.toNat - dist (stealOf tail) head := by
      rw [hsame] at hcap ⊢
      exact UInt32.toNat_sub_of_le _ _ (UInt32.le_iff_toNat_le.mpr hcap)
    rw [hsub]
    omega
  · omega

end Kyron.Proofs.Containers
