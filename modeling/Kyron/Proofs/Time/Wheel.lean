import Mathlib.Algebra.BigOperators.Fin
import Mathlib.Data.Multiset.Filter
import Kyron.Lib.Sums
import Kyron.Proofs.Time.Level

/-!
# `Kyron.Proofs.Time.Wheel`: one level keeps its invariant

`WheelOk last l w` is what holds of level `l` between two operations of the driver, when
`last` is the last processed time: a bit of the bitmap is set exactly when its slot has
entries, and every entry sits in the slot of its own base-64 digit and is filed at level `l`
for `last`.

`nextExpiration_spec` is what the driver uses of `next_expiration`. On an empty level it
answers nothing. Otherwise it answers the slot whose block begins first, with that beginning
as the deadline, and it reaches none of its panics: the rotation of the bitmap never wraps a
slot around, because no entry is in a slot before the slot of `last`.
-/

set_option autoImplicit false

namespace Kyron.Proofs.Time

open Kyron.Lib
open Kyron.Time
open TimeWheel

variable {W : Type}

/-- The slot that a deadline has at level `l`. -/
def slotOf (l : Nat) (expireAt : UInt64) : Fin 64 :=
  ⟨expireAt.toNat / 64 ^ l % 64, Nat.mod_lt _ (by decide)⟩

/-- The nodes of one level, as a multiset. It is irreducible because the sum over the slots
is deep enough to exhaust the unifier when it is unfolded by accident. -/
@[irreducible] def wheelNodes (w : TimeWheel W) : Multiset (TimeEntry W) :=
  ∑ i, (w.slots i : Multiset (TimeEntry W))

/-- The invariant of level `l` at the last processed time `last`. -/
structure WheelOk (last : UInt64) (l : Nat) (w : TimeWheel W) : Prop where
  level_eq : w.level = l
  occupied : ∀ i : Fin 64, w.occupiedSlots.getLsbD i = true ↔ w.slots i ≠ []
  filed : ∀ i, ∀ e ∈ w.slots i, Filed 64 l last.toNat e.data.expireAt.toNat
  slot : ∀ i, ∀ e ∈ w.slots i, slotOf l e.data.expireAt = i

variable {e : TimeEntry W} {w : TimeWheel W} {l : Nat} {last : UInt64}

theorem mem_wheelNodes : e ∈ wheelNodes w ↔ ∃ i, e ∈ w.slots i := by
  unfold wheelNodes
  rw [Multiset.mem_sum]
  simp only [Finset.mem_univ, Multiset.mem_coe, true_and]

/-- The range of a slot of level `l`, as a number. -/
theorem slotRange_toNat (hl : l < maxLevels) (h : w.level = l) : w.slotRange.toNat = 64 ^ l := by
  unfold slotRange
  rw [h]
  match l, hl with
  | 0, _ | 1, _ | 2, _ | 3, _ | 4, _ => rfl

/-- The range of the whole level `l`, as a number. -/
theorem levelRange_toNat (hl : l < maxLevels) (h : w.level = l) :
    w.levelRange.toNat = 2 ^ (6 * (l + 1)) := by
  have hpow : (64 : Nat) ^ (l + 1) < 2 ^ 64 := by
    rw [sixtyFour_pow]
    exact Nat.pow_lt_pow_right (by decide) (by unfold maxLevels at hl; omega)
  unfold levelRange
  rw [UInt64.toNat_mul, slotRange_toNat hl h, ← sixtyFour_pow,
    show slotsCnt.toNat = 64 from rfl, ← Nat.pow_succ]
  exact Nat.mod_eq_of_lt hpow

/-! ### The empty level -/

theorem wheelOk_new (last : UInt64) (l : Nat) : WheelOk last l (TimeWheel.new l : TimeWheel W) where
  level_eq := rfl
  occupied := by simp [new]
  filed := by simp [new]
  slot := by simp [new]

theorem wheelNodes_new (l : Nat) : wheelNodes (TimeWheel.new l : TimeWheel W) = 0 := by
  unfold wheelNodes new
  exact Finset.sum_const_zero

/-- A level has no nodes exactly when its bitmap is clear. -/
theorem WheelOk.occupied_eq_zero_iff (h : WheelOk last l w) :
    w.occupiedSlots = 0#64 ↔ wheelNodes w = 0 := by
  constructor
  · intro hzero
    refine Multiset.eq_zero_of_forall_notMem fun e he => ?_
    obtain ⟨i, hi⟩ := mem_wheelNodes.mp he
    have hbit := (h.occupied i).mpr (List.ne_nil_of_mem hi)
    rw [hzero, BitVec.getLsbD_zero] at hbit
    cases hbit
  · intro hnone
    apply BitVec.eq_of_getLsbD_eq
    intro i hi
    have hbit : w.occupiedSlots.getLsbD i ≠ true := by
      intro hset
      obtain ⟨e, he⟩ := List.exists_mem_of_ne_nil _ ((h.occupied ⟨i, hi⟩).mp hset)
      have hmem : e ∈ wheelNodes w := mem_wheelNodes.mpr ⟨_, he⟩
      rw [hnone] at hmem
      exact Multiset.notMem_zero e hmem
    rw [BitVec.getLsbD_zero]
    exact Bool.eq_false_iff.mpr hbit

/-! ### Searching the next slot -/

/-- The slot search of a level whose bits are all at or after the slot of `now`: it answers
the lowest set bit, and the addition in it does not overflow 32 bits. -/
theorem nextOccupiedSlot_eq {now : UInt64} (hocc : w.occupiedSlots ≠ 0)
    (hlow : ∀ i, w.occupiedSlots.getLsbD i = true → now.toNat / w.slotRange.toNat % 64 ≤ i) :
    w.nextOccupiedSlot now = .ok (some (Fin.ofNat 64 w.occupiedSlots.ctz.toNat)) := by
  have hcurr : (now / w.slotRange).toUInt32.toNat = now.toNat / w.slotRange.toNat % 2 ^ 32 := by
    rw [UInt64.toNat_toUInt32, UInt64.toNat_div]
  have hcut : now.toNat / w.slotRange.toNat % 2 ^ 32 % 64 = now.toNat / w.slotRange.toNat % 64 :=
    Nat.mod_mod_of_dvd _ (by decide)
  have hctz : w.occupiedSlots.ctz.toNat < 64 :=
    BitVec.lt_of_getLsbD (BitVec.getLsbD_true_ctz_of_ne_zero hocc)
  -- A rotation by a 32-bit slot number is a rotation by its last six bits.
  have hrot := ctz_rotateRight hocc (Nat.mod_lt _ (by decide : 64 > 0)) hlow
  rw [← hcut, BitVec.rotateRight_mod_eq_rotateRight] at hrot
  unfold nextOccupiedSlot
  rw [if_neg hocc]
  rw [hcurr, if_pos (by omega)]
  congr 2
  apply Fin.ext
  simp only [Fin.val_ofNat]
  omega

/-- Under the invariant, no entry is in a slot before the slot of the last processed time. -/
theorem WheelOk.currSlot_le (h : WheelOk last l w) (i : Nat)
    (hi : w.occupiedSlots.getLsbD i = true) :
    last.toNat / 64 ^ l % 64 ≤ i := by
  obtain ⟨e, he⟩ :=
    List.exists_mem_of_ne_nil _ ((h.occupied ⟨i, BitVec.lt_of_getLsbD hi⟩).mp hi)
  have hfiled := h.filed _ e he
  have hslot := congrArg Fin.val (h.slot _ e he)
  simp only [slotOf] at hslot
  -- The two times are in one block of 64 slots, so the order of the slots is the order of
  -- their digits.
  have hwindow := hfiled.window
  rw [block_succ, block_succ] at hwindow
  have hle : last.toNat / 64 ^ l ≤ e.data.expireAt.toNat / 64 ^ l :=
    Nat.div_le_div_right hfiled.le
  omega

/-- The deadline that `next_expiration` computes for a slot in use, as a sum of numbers: the
start of the block of every entry in the slot. -/
theorem WheelOk.slotDeadline_eq (hl : l < maxLevels) (h : WheelOk last l w) {slot : Fin 64}
    (he : e ∈ w.slots slot) :
    (last &&& ~~~(w.levelRange - 1)).toNat + (UInt64.ofNat (slot : Nat) * w.slotRange).toNat
      = blockStart 64 l e.data.expireAt.toNat := by
  have hstart : (last &&& ~~~(w.levelRange - 1)).toNat
      = last.toNat / 64 ^ (l + 1) * 64 ^ (l + 1) := by
    rw [uint64_alignDown last _ _ (levelRange_toNat hl h.level_eq), ← sixtyFour_pow]
  have hoffset : (UInt64.ofNat (slot : Nat) * w.slotRange).toNat = (slot : Nat) * 64 ^ l := by
    have hsmall : (slot : Nat) * 64 ^ l < 2 ^ 64 :=
      calc (slot : Nat) * 64 ^ l < 64 * 64 ^ l :=
            Nat.mul_lt_mul_of_pos_right slot.isLt (Nat.pow_pos (by decide))
        _ = 2 ^ (6 * (l + 1)) := by rw [← Nat.pow_succ', sixtyFour_pow]
        _ ≤ 2 ^ 64 := Nat.pow_le_pow_right (by decide) (by unfold maxLevels at hl; omega)
    rw [UInt64.toNat_mul, UInt64.toNat_ofNat',
      Nat.mod_eq_of_lt (Nat.lt_trans slot.isLt (by decide)), slotRange_toNat hl h.level_eq]
    exact Nat.mod_eq_of_lt hsmall
  have hdigit := congrArg Fin.val (h.slot slot e he)
  simp only [slotOf] at hdigit
  -- The entry shares the block of the level with the last processed time, and its digit is the
  -- slot.
  rw [hstart, hoffset, (h.filed slot e he).window, ← hdigit, blockStart_eq]

/-- The slot of the lowest set bit is before every other slot in use. -/
theorem WheelOk.lowest_lt (h : WheelOk last l w) {lowest i : Fin 64}
    (hlowest : (lowest : Nat) = w.occupiedSlots.ctz.toNat) (hi : i ≠ lowest) (he : e ∈ w.slots i) :
    lowest < i := by
  have hbit := (h.occupied i).mpr (List.ne_nil_of_mem he)
  by_contra hge
  have hlt : (i : Nat) < w.occupiedSlots.ctz.toNat := by
    rw [← hlowest]
    exact Fin.lt_def.mp (lt_of_le_of_ne (Fin.not_lt.mp hge) hi)
  rw [BitVec.getLsbD_false_of_lt_ctz hlt] at hbit
  cases hbit

/-- What `next_expiration` answers on a level: nothing when the level is empty, and otherwise
the slot whose block begins first. -/
theorem nextExpiration_spec (hl : l < maxLevels) (h : WheelOk last l w) :
    (wheelNodes w = 0 ∧ w.nextExpiration last = .ok none) ∨
    ∃ info, w.nextExpiration last = .ok (some info) ∧ info.level = l ∧
      w.slots info.slotId ≠ [] ∧ last ≤ info.deadline ∧
      (∀ e ∈ w.slots info.slotId,
        info.deadline.toNat = blockStart 64 l e.data.expireAt.toNat) ∧
      (∀ i, i ≠ info.slotId → ∀ e ∈ w.slots i,
        info.deadline.toNat < blockStart 64 l e.data.expireAt.toNat) := by
  by_cases hocc : w.occupiedSlots = 0
  · left
    refine ⟨h.occupied_eq_zero_iff.mp hocc, ?_⟩
    unfold nextExpiration nextOccupiedSlot
    rw [if_pos hocc]
    rfl
  · right
    have hnext : w.nextOccupiedSlot last = .ok (some (Fin.ofNat 64 w.occupiedSlots.ctz.toNat)) := by
      refine nextOccupiedSlot_eq hocc ?_
      rw [slotRange_toNat hl h.level_eq]
      exact h.currSlot_le
    have hbit := BitVec.getLsbD_true_ctz_of_ne_zero hocc
    obtain ⟨m, hm⟩ : ∃ m : Fin 64, m = Fin.ofNat 64 w.occupiedSlots.ctz.toNat := ⟨_, rfl⟩
    have hmval : (m : Nat) = w.occupiedSlots.ctz.toNat := by
      rw [hm, Fin.val_ofNat, Nat.mod_eq_of_lt (BitVec.lt_of_getLsbD hbit)]
    have hmne : w.slots m ≠ [] := (h.occupied m).mp (by rw [hmval]; exact hbit)
    obtain ⟨e₀, he₀⟩ := List.exists_mem_of_ne_nil _ hmne
    -- The addition does not overflow, because the entry of the slot lies behind the sum.
    have hfit : (last &&& ~~~(w.levelRange - 1)).toNat
        + (UInt64.ofNat (m : Nat) * w.slotRange).toNat < 2 ^ 64 := by
      rw [h.slotDeadline_eq hl he₀]
      exact Nat.lt_of_le_of_lt (blockStart_le _ _ _) e₀.data.expireAt.toNat_lt
    have hval : ∀ e ∈ w.slots m,
        ((last &&& ~~~(w.levelRange - 1)) + UInt64.ofNat (m : Nat) * w.slotRange).toNat
          = blockStart 64 l e.data.expireAt.toNat := fun e he => by
      rw [UInt64.toNat_add, Nat.mod_eq_of_lt hfit, h.slotDeadline_eq hl he]
    have hge : last ≤ (last &&& ~~~(w.levelRange - 1)) + UInt64.ofNat (m : Nat) * w.slotRange := by
      rw [UInt64.le_iff_toNat_le, hval e₀ he₀]
      exact (h.filed m e₀ he₀).le_blockStart (by decide)
    refine ⟨⟨w.level, m, (last &&& ~~~(w.levelRange - 1)) + UInt64.ofNat (m : Nat) * w.slotRange⟩,
      ?_, h.level_eq, hmne, hge, hval, ?_⟩
    · unfold nextExpiration
      rw [hnext, ← hm]
      show (if _ then _ else _) = _
      rw [if_pos hfit, if_pos hge]
    · intro i hi e he
      rw [hval e₀ he₀]
      have hdigit := congrArg Fin.val (h.slot i e he)
      have hdigit₀ := congrArg Fin.val (h.slot m e₀ he₀)
      simp only [slotOf] at hdigit hdigit₀
      exact (h.filed m e₀ he₀).blockStart_lt_of_digit_lt (h.filed i e he) (by decide)
        (by rw [hdigit, hdigit₀]; exact h.lowest_lt hmval hi he)

/-! ### Emptying a slot and filing a node -/

/-- The level that `aquire_slot` leaves behind. -/
def emptied (w : TimeWheel W) (slotId : Fin 64) : TimeWheel W :=
  { w with
      occupiedSlots := w.occupiedSlots &&& ~~~(BitVec.twoPow 64 slotId)
      slots := Function.update w.slots slotId [] }

theorem aquireSlot_eq {info : ExpireInfo} (h : info.level = w.level) :
    w.aquireSlot info = .ok (w.slots info.slotId, emptied w info.slotId) := by
  unfold aquireSlot
  rw [if_pos h]
  rfl

theorem mem_emptied_slots {slotId i : Fin 64} :
    e ∈ (emptied w slotId).slots i ↔ i ≠ slotId ∧ e ∈ w.slots i := by
  unfold emptied
  by_cases hi : i = slotId
  · subst hi
    simp
  · simp [hi]

/-- Emptying a slot keeps the invariant for every time that keeps the other entries filed. -/
theorem WheelOk.emptied {now : UInt64} (h : WheelOk last l w) (slotId : Fin 64)
    (hfiled : ∀ i, i ≠ slotId → ∀ e ∈ w.slots i, Filed 64 l now.toNat e.data.expireAt.toNat) :
    WheelOk now l (emptied w slotId) where
  level_eq := h.level_eq
  occupied := by
    intro i
    by_cases hi : i = slotId
    · subst hi
      simp [Time.emptied]
    · have hne : (slotId : Nat) ≠ i := fun heq => hi (Fin.ext heq.symm)
      simp only [Time.emptied, Function.update_of_ne hi, BitVec.getLsbD_and, BitVec.getLsbD_not,
        BitVec.getLsbD_twoPow, hne, decide_false, Bool.and_false, Bool.not_false,
        decide_eq_true i.isLt, Bool.and_true]
      exact h.occupied i
  filed := by
    intro i e he
    obtain ⟨hi, he'⟩ := mem_emptied_slots.mp he
    exact hfiled i hi e he'
  slot := by
    intro i e he
    exact h.slot i e (mem_emptied_slots.mp he).2

/-- The nodes of a level are those of a slot and those that are left when it is emptied. -/
theorem wheelNodes_emptied (w : TimeWheel W) (slotId : Fin 64) :
    wheelNodes w = w.slots slotId + wheelNodes (emptied w slotId) := by
  have hsum := sum_update (fun _ (es : List (TimeEntry W)) => (es : Multiset (TimeEntry W)))
    w.slots slotId []
  rw [Multiset.coe_nil, zero_add] at hsum
  unfold wheelNodes emptied
  exact hsum.symm

/-- Filing a node keeps the invariant when the node is filed at this level. -/
theorem WheelOk.register (hl : l < maxLevels) (h : WheelOk last l w) (e : TimeEntry W)
    (hfiled : Filed 64 l last.toNat e.data.expireAt.toNat) :
    WheelOk last l (w.registerWakeupOnTimeout e.data.expireAt e) := by
  have hslotId : Fin.ofNat 64 (e.data.expireAt / w.slotRange).toNat = slotOf l e.data.expireAt := by
    rw [UInt64.toNat_div, slotRange_toNat hl h.level_eq]
    rfl
  have hmem : ∀ i, ∀ e' ∈ (w.registerWakeupOnTimeout e.data.expireAt e).slots i,
      (e' = e ∧ i = slotOf l e.data.expireAt) ∨ e' ∈ w.slots i := by
    intro i e' he'
    simp only [registerWakeupOnTimeout, hslotId] at he'
    by_cases hi : i = slotOf l e.data.expireAt
    · subst hi
      rw [Function.update_self, List.mem_cons] at he'
      rcases he' with he' | he'
      · exact Or.inl ⟨he', rfl⟩
      · exact Or.inr he'
    · rw [Function.update_of_ne hi] at he'
      exact Or.inr he'
  constructor
  · exact h.level_eq
  · intro i
    simp only [registerWakeupOnTimeout, hslotId, BitVec.getLsbD_or, BitVec.getLsbD_twoPow]
    by_cases hi : i = slotOf l e.data.expireAt
    · subst hi
      simp
    · have hne : ((slotOf l e.data.expireAt : Fin 64) : Nat) ≠ i := fun heq => hi (Fin.ext heq.symm)
      simp only [Function.update_of_ne hi, hne, decide_false, Bool.and_false, Bool.or_false]
      exact h.occupied i
  · intro i e' he'
    rcases hmem i e' he' with ⟨rfl, -⟩ | he'
    · exact hfiled
    · exact h.filed i e' he'
  · intro i e' he'
    rcases hmem i e' he' with ⟨rfl, hi⟩ | he'
    · exact hi.symm
    · exact h.slot i e' he'

/-- Filing a node adds exactly that node to the level. -/
theorem wheelNodes_register (w : TimeWheel W) (expireAt : UInt64) (e : TimeEntry W) :
    wheelNodes (w.registerWakeupOnTimeout expireAt e) = e ::ₘ wheelNodes w := by
  unfold wheelNodes registerWakeupOnTimeout
  generalize Fin.ofNat 64 (expireAt / w.slotRange).toNat = k
  have hsum := sum_update (fun _ (es : List (TimeEntry W)) => (es : Multiset (TimeEntry W)))
    w.slots k (e :: w.slots k)
  rw [← Multiset.cons_coe, Multiset.cons_add, ← Multiset.add_cons] at hsum
  exact add_left_cancel hsum

end Kyron.Proofs.Time
