import Kyron.Lib.Bits
import Kyron.Task.State

/-!
# `Kyron.Proofs.Task.State`: the bits of the state word

`flag i v` is bit `i` of the word. Each predicate of `TaskStateSnapshot` reads one bit, or one
of two, and each setter changes the bits of its mask, so a question about a predicate of a
changed word is a question about single bits. The simp lemmas below answer all of them.

`InPhase p v` says that of the idle, running and completed bits exactly that of `p` is set. The
word of a task is always in one phase, and the lemmas at the end say how the setters move it.
-/

set_option autoImplicit false

namespace Kyron.Proofs.Task

open Kyron.Task
open Kyron.Task.TaskStateSnapshot

variable {v next : TaskStateSnapshot}

/-- Bit `i` of the state word. -/
def flag (i : Nat) (v : TaskStateSnapshot) : Bool := v.bits.toBitVec.getLsbD i

/-- A mask of one bit is contained in a word exactly when the word has the bit. -/
theorem and_beq_mask {x m : UInt32} {i : Nat} (hi : i < 32) (hm : m.toBitVec = BitVec.twoPow 32 i) :
    ((x &&& m) == m) = x.toBitVec.getLsbD i := by
  have hand : (x &&& m).toBitVec = if x.toBitVec.getLsbD i then BitVec.twoPow 32 i else 0#32 := by
    rw [UInt32.toBitVec_and, hm, BitVec.and_twoPow]
  rw [Bool.eq_iff_iff, beq_iff_eq, ← UInt32.toBitVec_inj, hand, hm]
  cases hbit : x.toBitVec.getLsbD i with
  | true => simp
  | false =>
      simp only [Bool.false_eq_true, if_false, iff_false]
      intro hzero
      have hget := congrArg (BitVec.getLsbD · i) hzero
      simp [hi] at hget

theorem isIdle_eq (v : TaskStateSnapshot) : v.isIdle = flag 0 v :=
  and_beq_mask (by decide) (by decide)

theorem isRunning_eq (v : TaskStateSnapshot) : v.isRunning = flag 1 v :=
  and_beq_mask (by decide) (by decide)

theorem isCompleted_eq (v : TaskStateSnapshot) : v.isCompleted = flag 2 v :=
  and_beq_mask (by decide) (by decide)

theorem isCanceled_eq (v : TaskStateSnapshot) : v.isCanceled = flag 3 v :=
  and_beq_mask (by decide) (by decide)

/-- A word shares a bit with a mask exactly when some bit of the mask is set in it. -/
theorem and_bne_zero {x m : UInt32} :
    ((x &&& m) != 0) = true ↔
      ∃ i < 32, x.toBitVec.getLsbD i = true ∧ m.toBitVec.getLsbD i = true := by
  rw [bne_iff_ne, ne_eq, ← UInt32.toBitVec_inj, UInt32.toBitVec_and]
  exact Lib.and_ne_zero_iff

theorem isNotified_eq (v : TaskStateSnapshot) : v.isNotified = (flag 5 v || flag 6 v) := by
  have hmask : ∀ i < 32, (taskNotified ||| taskNotifiedSafety).toBitVec.getLsbD i = true ↔
      i = 5 ∨ i = 6 := by decide
  rw [Bool.eq_iff_iff, Bool.or_eq_true]
  unfold isNotified flag
  rw [and_bne_zero]
  constructor
  · rintro ⟨i, hi, hx, hm⟩
    rcases (hmask i hi).mp hm with rfl | rfl
    · exact Or.inl hx
    · exact Or.inr hx
  · rintro (hx | hx)
    · exact ⟨5, by decide, hx, by decide⟩
    · exact ⟨6, by decide, hx, by decide⟩

/-! ### The bits that a setter changes -/

/-- A setter that adds a mask of one bit. -/
theorem flag_or_mask (x : UInt32) {m : UInt32} {k : Nat} (hk : k < 32)
    (hm : m.toBitVec = BitVec.twoPow 32 k) (i : Nat) :
    flag i ⟨x ||| m⟩ = (flag i ⟨x⟩ || decide (i = k)) := by
  unfold flag
  rw [UInt32.toBitVec_or, BitVec.getLsbD_or, hm, BitVec.getLsbD_twoPow, decide_eq_true hk,
    Bool.true_and]
  simp only [eq_comm]

theorem flag_setJoinHandle (i : Nat) : flag i v.setJoinHandle = (flag i v || decide (i = 4)) :=
  flag_or_mask v.bits (by decide) (by decide) i

theorem flag_setNotified (i : Nat) : flag i v.setNotified = (flag i v || decide (i = 5)) :=
  flag_or_mask v.bits (by decide) (by decide) i

theorem flag_setSafetyNotified (i : Nat) :
    flag i v.setSafetyNotified = (flag i v || decide (i = 6)) :=
  flag_or_mask v.bits (by decide) (by decide) i

theorem flag_setCanceled (i : Nat) : flag i v.setCanceled = (flag i v || decide (i = 3)) :=
  flag_or_mask v.bits (by decide) (by decide) i

theorem flag_setIdle (i : Nat) : flag i v.setIdle = (flag i v ^^ decide (i = 0 ∨ i = 1)) := by
  unfold flag setIdle
  rw [UInt32.toBitVec_xor, BitVec.getLsbD_xor, show (taskStateRunning ||| taskStateIdle).toBitVec
    = BitVec.twoPow 32 0 ||| BitVec.twoPow 32 1 by decide, BitVec.getLsbD_or,
    BitVec.getLsbD_twoPow, BitVec.getLsbD_twoPow]
  simp [eq_comm]

theorem setRunning_eq_setIdle : v.setRunning = v.setIdle := rfl

theorem flag_unsetNotified {i : Nat} (hi : i < 32) :
    flag i v.unsetNotified = (flag i v && !decide (i = 5 ∨ i = 6)) := by
  unfold flag unsetNotified
  rw [UInt32.toBitVec_and, BitVec.getLsbD_and, UInt32.toBitVec_not, BitVec.getLsbD_not,
    show (taskNotified ||| taskNotifiedSafety).toBitVec
    = BitVec.twoPow 32 5 ||| BitVec.twoPow 32 6 by decide, BitVec.getLsbD_or,
    BitVec.getLsbD_twoPow, BitVec.getLsbD_twoPow]
  simp [eq_comm, hi]

/-! ### What the predicates say of a changed word -/

@[simp] theorem isCanceled_setJoinHandle : v.setJoinHandle.isCanceled = v.isCanceled := by
  simp [isCanceled_eq, flag_setJoinHandle]

@[simp] theorem isNotified_setJoinHandle : v.setJoinHandle.isNotified = v.isNotified := by
  simp [isNotified_eq, flag_setJoinHandle]

@[simp] theorem isCanceled_setNotified : v.setNotified.isCanceled = v.isCanceled := by
  simp [isCanceled_eq, flag_setNotified]

@[simp] theorem isNotified_setNotified : v.setNotified.isNotified = true := by
  simp [isNotified_eq, flag_setNotified]

@[simp] theorem isCanceled_setSafetyNotified : v.setSafetyNotified.isCanceled = v.isCanceled := by
  simp [isCanceled_eq, flag_setSafetyNotified]

@[simp] theorem isNotified_setSafetyNotified : v.setSafetyNotified.isNotified = true := by
  simp [isNotified_eq, flag_setSafetyNotified]

@[simp] theorem isCanceled_setCanceled : v.setCanceled.isCanceled = true := by
  simp [isCanceled_eq, flag_setCanceled]

@[simp] theorem isCanceled_setIdle : v.setIdle.isCanceled = v.isCanceled := by
  simp [isCanceled_eq, flag_setIdle]

@[simp] theorem isNotified_setIdle : v.setIdle.isNotified = v.isNotified := by
  simp [isNotified_eq, flag_setIdle]

@[simp] theorem isCompleted_setIdle : v.setIdle.isCompleted = v.isCompleted := by
  simp [isCompleted_eq, flag_setIdle]

@[simp] theorem isCanceled_unsetNotified : v.unsetNotified.isCanceled = v.isCanceled := by
  simp [isCanceled_eq, flag_unsetNotified]

/-! ### Phases -/

/-- The three phases of a task. -/
inductive Phase
  | idle
  | running
  | completed
  deriving DecidableEq

/-- Of the idle, running and completed bits, exactly that of the phase is set. -/
structure InPhase (p : Phase) (v : TaskStateSnapshot) : Prop where
  idle : v.isIdle = decide (p = .idle)
  running : v.isRunning = decide (p = .running)
  completed : v.isCompleted = decide (p = .completed)

/-- A change above the three phase bits does not change the phase. -/
theorem InPhase.of_flags {p : Phase} (h : InPhase p v) (hflags : ∀ i < 3, flag i next = flag i v) :
    InPhase p next where
  idle := by rw [← h.idle, isIdle_eq, isIdle_eq, hflags 0 (by decide)]
  running := by rw [← h.running, isRunning_eq, isRunning_eq, hflags 1 (by decide)]
  completed := by rw [← h.completed, isCompleted_eq, isCompleted_eq, hflags 2 (by decide)]

theorem InPhase.setJoinHandle {p : Phase} (h : InPhase p v) : InPhase p v.setJoinHandle :=
  h.of_flags fun i hi => by simp [flag_setJoinHandle, show i ≠ 4 by omega]

theorem InPhase.setNotified {p : Phase} (h : InPhase p v) : InPhase p v.setNotified :=
  h.of_flags fun i hi => by simp [flag_setNotified, show i ≠ 5 by omega]

theorem InPhase.setSafetyNotified {p : Phase} (h : InPhase p v) : InPhase p v.setSafetyNotified :=
  h.of_flags fun i hi => by simp [flag_setSafetyNotified, show i ≠ 6 by omega]

theorem InPhase.setCanceled {p : Phase} (h : InPhase p v) : InPhase p v.setCanceled :=
  h.of_flags fun i hi => by simp [flag_setCanceled, show i ≠ 3 by omega]

theorem InPhase.unsetNotified {p : Phase} (h : InPhase p v) : InPhase p v.unsetNotified :=
  h.of_flags fun i hi => by
    simp [flag_unsetNotified (show i < 32 by omega), show i ≠ 5 by omega, show i ≠ 6 by omega]

/-- `set_running` and `set_idle` are the same flip: it takes an idle task to running. -/
theorem InPhase.setRunning (h : InPhase .idle v) : InPhase .running v.setRunning where
  idle := by have := h.idle; simp_all [isIdle_eq, setRunning_eq_setIdle, flag_setIdle]
  running := by have := h.running; simp_all [isRunning_eq, setRunning_eq_setIdle, flag_setIdle]
  completed := by have := h.completed; simp_all [setRunning_eq_setIdle]

/-- The flip takes a running task to idle. -/
theorem InPhase.setIdle (h : InPhase .running v) : InPhase .idle v.setIdle where
  idle := by have := h.idle; simp_all [isIdle_eq, flag_setIdle]
  running := by have := h.running; simp_all [isRunning_eq, flag_setIdle]
  completed := by have := h.completed; simp_all

theorem inPhase_new : InPhase .idle TaskStateSnapshot.new := ⟨by decide, by decide, by decide⟩

theorem inPhase_completed : InPhase .completed ⟨taskStateCompleted⟩ :=
  ⟨by decide, by decide, by decide⟩

end Kyron.Proofs.Task
