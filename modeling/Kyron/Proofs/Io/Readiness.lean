import Kyron.Io.Driver
import Kyron.Lib.Bits

/-!
# `Kyron.Proofs.Io.Readiness`: the states and the tick of a readiness word

A readiness word is read through its two halves. `ReadinessState.has` reads the state of one
direction, and the lemmas below say what each operation on words does to it and to the tick.
-/

set_option autoImplicit false

namespace Kyron.Proofs.Io

open Kyron.Io
open Kyron.Io.ReadinessState

/-! ### The two halves -/

/-- The states are the low 16 bits, and the tick is the high 16 bits. -/
theorem getLsbD_fromComponents (state tick : UInt16) {i : Nat} (hi : i < 32) :
    (fromComponents state tick).bits.toBitVec.getLsbD i =
      if i < 16 then state.toBitVec.getLsbD i else tick.toBitVec.getLsbD (i - 16) := by
  have hstate : 16 ≤ i → state.toBitVec.getLsbD i = false := BitVec.getLsbD_of_ge _ i
  by_cases h : i < 16
  · simp [fromComponents, readinessTickShift, hi, h]
  · simp [fromComponents, readinessTickShift, hi, h, hstate (by omega)]

/-- The state mask keeps the low half. -/
theorem getLsbD_extractState (r : ReadinessState) {i : Nat} (hi : i < 16) :
    r.extractState.toBitVec.getLsbD i = r.bits.toBitVec.getLsbD i := by
  have hmask : ∀ i < 16, readinessStateMask.toBitVec.getLsbD i = true := by decide
  simp [extractState, hi, hmask]

/-- The tick mask and the shift give the high half. -/
theorem getLsbD_extractTick (r : ReadinessState) {i : Nat} (hi : i < 16) :
    r.extractTick.toBitVec.getLsbD i = r.bits.toBitVec.getLsbD (16 + i) := by
  have hmask : ∀ i < 16, readinessTickMask.toBitVec.getLsbD (16 + i) = true := by decide
  simp [extractTick, readinessTickShift, hi, hmask]

/-- What is packed as the states comes back. -/
@[simp]
theorem extractState_fromComponents (state tick : UInt16) :
    (fromComponents state tick).extractState = state := by
  rw [← UInt16.toBitVec_inj]
  refine BitVec.eq_of_getLsbD_eq fun i hi => ?_
  rw [getLsbD_extractState _ hi, getLsbD_fromComponents _ _ (by omega), if_pos hi]

/-- What is packed as the tick comes back. -/
@[simp]
theorem extractTick_fromComponents (state tick : UInt16) :
    (fromComponents state tick).extractTick = tick := by
  rw [← UInt16.toBitVec_inj]
  refine BitVec.eq_of_getLsbD_eq fun i hi => ?_
  rw [getLsbD_extractTick _ hi, getLsbD_fromComponents _ _ (by omega), if_neg (by omega),
    Nat.add_sub_cancel_left]

/-! ### The states -/

/-- The bit of a direction in the low half. -/
def bitOf : Direction → Nat
  | .readable => 0
  | .writable => 1

theorem bitOf_lt (d : Direction) : bitOf d < 16 := by
  cases d <;> decide

/-- Two directions do not share a bit. -/
theorem bitOf_inj {d d' : Direction} (h : bitOf d = bitOf d') : d = d' := by
  cases d <;> cases d' <;> first | rfl | cases h

/-- The state of a direction is its bit of the low half. -/
theorem has_eq (r : ReadinessState) (d : Direction) :
    r.has d = r.extractState.toBitVec.getLsbD (bitOf d) := by
  rw [getLsbD_extractState r (bitOf_lt d), Bool.eq_iff_iff]
  have hmask : ∀ m : UInt32, (∀ i < 32, m.toBitVec.getLsbD i = true ↔ i = bitOf d) →
      ((r.bits &&& m != 0) = true ↔ r.bits.toBitVec.getLsbD (bitOf d) = true) := by
    intro m hm
    rw [bne_iff_ne, ne_eq, ← UInt32.toBitVec_inj, UInt32.toBitVec_and]
    refine Lib.and_ne_zero_iff.trans ⟨?_, fun h => ?_⟩
    · rintro ⟨i, hi, hx, hbit⟩
      rwa [(hm i hi).mp hbit] at hx
    · have hlt : bitOf d < 32 := Nat.lt_trans (bitOf_lt d) (by decide)
      exact ⟨bitOf d, hlt, h, (hm _ hlt).mpr rfl⟩
  cases d with
  | readable => exact hmask readinessStateReadable (by decide)
  | writable => exact hmask readinessStateWritable (by decide)

/-- A union sets the states of both words. -/
@[simp]
theorem has_union (r other : ReadinessState) (d : Direction) :
    (r.union other).has d = (r.has d || other.has d) := by
  simp [has_eq, union]

/-- A new tick leaves the states, also when it wraps. -/
@[simp]
theorem has_incrementTick (r : ReadinessState) (d : Direction) :
    r.incrementTick.has d = r.has d := by
  simp [has_eq, incrementTick]

/-- `clear` takes away the states of the mask, and no others. -/
@[simp]
theorem has_clear (r mask : ReadinessState) (d : Direction) :
    (r.clear mask).has d = (r.has d && !mask.has d) := by
  simp [has_eq, ReadinessState.clear, bitOf_lt d]

/-- The low half of a word that is made from an interest or from an event. -/
theorem getLsbD_ofInterest (i : IoEventInterest) {j : Nat} (hj : j < 16) :
    (ofInterest i).extractState.toBitVec.getLsbD j = true ↔ ∃ d, i.has d = true ∧ j = bitOf d := by
  have hbits : ∀ r w : Bool, ∀ j < 16,
      ((if w then (if r then readinessStateReadable else 0) ||| readinessStateWritable
        else if r then readinessStateReadable else 0).toUInt16.toBitVec.getLsbD j = true ↔
        r = true ∧ j = 0 ∨ w = true ∧ j = 1) := by
    decide
  rw [ofInterest, extractState_fromComponents, hbits _ _ j hj]
  constructor
  · rintro (⟨hr, rfl⟩ | ⟨hw, rfl⟩)
    · exact ⟨.readable, hr, rfl⟩
    · exact ⟨.writable, hw, rfl⟩
  · rintro ⟨d, hd, rfl⟩
    cases d with
    | readable => exact Or.inl ⟨hd, rfl⟩
    | writable => exact Or.inr ⟨hd, rfl⟩

/-- An interest sets the states of its own directions. -/
@[simp]
theorem has_ofInterest (i : IoEventInterest) (d : Direction) : (ofInterest i).has d = i.has d := by
  rw [has_eq, Bool.eq_iff_iff, getLsbD_ofInterest i (bitOf_lt d)]
  constructor
  · rintro ⟨d', hd', hbit⟩
    rwa [bitOf_inj hbit]
  · exact fun hd => ⟨d, hd, rfl⟩

/-- An event sets the states of the interest that it reports. -/
theorem fromMioEvent_eq (event : IoEvent) : fromMioEvent event = ofInterest event.interest := rfl

/-- `mark_state` adds states and takes none away. -/
@[simp]
theorem has_markState (current state : ReadinessState) (d : Direction) :
    (current.markState state).has d = (current.has d || state.has d) := by
  simp [markState]

/-- A word and an interest meet in some direction. -/
theorem intersection_isSome (r : ReadinessState) (i : IoEventInterest) :
    (r.intersection (ofInterest i)).isSome = true ↔ ∃ d, r.has d = true ∧ i.has d = true := by
  have hval : (r.intersection (ofInterest i)).isSome = true ↔
      r.extractState.toBitVec &&& (ofInterest i).extractState.toBitVec ≠ 0#16 := by
    rw [intersection, ← UInt16.toBitVec_and, ← UInt16.toBitVec_zero, ne_eq, UInt16.toBitVec_inj]
    split <;> simp_all
  rw [hval, Lib.and_ne_zero_iff]
  constructor
  · rintro ⟨j, hj, hr, hi⟩
    obtain ⟨d, hd, rfl⟩ := (getLsbD_ofInterest i hj).mp hi
    exact ⟨d, by rwa [has_eq], hd⟩
  · rintro ⟨d, hr, hi⟩
    exact ⟨bitOf d, bitOf_lt d, by rwa [← has_eq],
      (getLsbD_ofInterest i (bitOf_lt d)).mpr ⟨d, hi, rfl⟩⟩

/-! ### The tick -/

/-- Each `mark_state` is a new tick. -/
@[simp]
theorem tick_markState (current state : ReadinessState) :
    (current.markState state).tick = current.tick + 1 := by
  simp [markState, union, incrementTick, tick]

/-- `clear` leaves the tick, so it hides no `mark_state`. -/
@[simp]
theorem tick_clear (r mask : ReadinessState) : (r.clear mask).tick = r.tick := by
  simp [ReadinessState.clear, tick]

end Kyron.Proofs.Io
