import Kyron.Io.ReadFuture
import Kyron.Proofs.Io.Readiness

/-!
# `Kyron.Proofs.Io.ReadFuture`: what an asynchronous read resolves to

Every poll comes to an end: `stepsLeft` goes down with each of its steps, whatever the driver does
meanwhile. A poll that begins when the file descriptor is readable makes at least one non-blocking
read, since nobody but the reader itself takes the readiness away. So the future resolves after as
many such polls as the read would block, and one more.

`ReadFuture::poll` computes its result from the buffer and drops the answer of `poll_read`. For an
outcome with bytes that is right. An error leaves the buffer as it is and becomes `Ok(0)`.

* `read_resolves_to_bytes`: where the outcome is `Ok`, the future resolves to it.
* `failed_read_resolves_to_zero`: where it is an error, the future always resolves to `Ok(0)`.
* `read_error_becomes_zero`: a read that fails.
-/

set_option autoImplicit false

namespace Kyron.Proofs.Io

open Kyron.Io
open Kyron.Io.ReadinessState
open Kyron.Lib

variable {E W : Type}

/-! ### The buffer -/

section Buffer

variable {buf bytes : List UInt8}

/-- What a read into a new buffer leaves there. -/
theorem readInto_new (hfit : bytes.length ≤ buf.length) :
    ((ReadBuf.new buf).readInto bytes).advanceFilled bytes.length =
      { buf := bytes ++ buf.drop bytes.length, filled := bytes.length,
        initialized := buf.length } := by
  simp [ReadBuf.new, ReadBuf.readInto, ReadBuf.advanceFilled, List.take_of_length_le hfit]

end Buffer

/-! ### The readiness that a poll finds -/

/-- `is_ready` of a reader looks at one bit. -/
theorem isReady_readable_iff (r : ReadinessState) :
    (r.isReady .readable).isSome = true ↔ r.has .readable = true := by
  rw [isReady, intersection_isSome]
  constructor
  · rintro ⟨d, hd, hinterest⟩
    cases d with
    | readable => exact hd
    | writable => cases hinterest
  · intro hd
    exact ⟨.readable, hd, rfl⟩

/-- An event takes no readiness away. -/
theorem isReady_markState {r state : ReadinessState} (h : (r.isReady .readable).isSome = true) :
    ((r.markState state).isReady .readable).isSome = true := by
  rw [isReady_readable_iff] at h ⊢
  rw [has_markState, h, Bool.true_or]

/-! ### A poll ends -/

/-- An upper bound for the steps until the poll returns. -/
def stepsLeft (s : ReadSystem E W) : Nat :=
  6 * s.wouldBlocks +
    match s.pc with
    | .idle => 0
    | .store _ => 1
    | .read .. => 2
    | .recheck _ => 3
    | .lock _ => 4
    | .isReady _ => 5
    | .clear .. => 6

section Steps

variable {s s' : ReadSystem E W}

/-- Each step of the reader leaves fewer steps, so a poll ends. -/
theorem stepReader_stepsLeft (h : s.stepReader = some s') : stepsLeft s' < stepsLeft s := by
  unfold ReadSystem.stepReader at h
  split at h
  · cases h
  · rename_i hpc
    split at h <;> cases h <;> simp [stepsLeft, hpc]
  · rename_i hpc
    cases h
    simp [stepsLeft, hpc]
  · rename_i hpc
    split at h <;> cases h <;> simp [stepsLeft, hpc]
  · rename_i hpc
    cases h
    simp [stepsLeft, hpc]
  · rename_i hpc
    cases h
    unfold ReadSystem.pollRead
    split
    · rename_i hblocks
      simp only [stepsLeft, hpc, hblocks]
      omega
    · rename_i hblocks
      split <;> simp [stepsLeft, ReadSystem.finish, hpc, hblocks]
  · rename_i hpc
    cases h
    simp [stepsLeft, hpc]

/-- The driver does not keep a poll from its end. -/
theorem driver_stepsLeft {a : ReadAction W} (h : s.step a = some s')
    (hdriver : a = .wakeAll ∨ ∃ state, a = .event state) : stepsLeft s' = stepsLeft s := by
  rcases hdriver with rfl | ⟨state, rfl⟩
  · simp only [ReadSystem.step] at h
    split at h
    · split at h
      · cases h
      · split at h <;> cases h <;> rfl
    · cases h
  · obtain ⟨-, rfl⟩ := Option.ite_some_none_eq_some.mp h
    rfl

/-- A poll can always go on. -/
theorem exists_stepReader (h : s.pc ≠ .idle) : ∃ s', s.stepReader = some s' := by
  unfold ReadSystem.stepReader
  cases hpc : s.pc with
  | idle => exact absurd hpc h
  | isReady waker | recheck waker => cases s.readiness.isReady .readable <;> exact ⟨_, rfl⟩
  | lock waker | store waker => exact ⟨_, rfl⟩
  | read readiness waker | clear readiness waker => exact ⟨_, rfl⟩

end Steps

/-! ### The result -/

section Result

variable {buf bytes : List UInt8} {outcome : Except E (List UInt8)} {blocks : Nat}
variable {s s' : ReadSystem E W}

/-- The bytes that the outcome puts into the buffer. -/
def delivered : Except E (List UInt8) → List UInt8
  | .ok bytes => bytes
  | .error _ => []

/-- The next read is certain to come in this poll. -/
def readAhead (s : ReadSystem E W) : Bool :=
  match s.pc with
  | .isReady _ => (s.readiness.isReady .readable).isSome
  | .read .. => true
  | _ => false

/-- The invariant of a read into `buf` that would block `blocks` times before its outcome. -/
structure ReadOk (buf : List UInt8) (outcome : Except E (List UInt8)) (blocks : Nat)
    (s : ReadSystem E W) : Prop where
  script : s.outcome = outcome
  before : s.before = 0
  /-- Up to the result the buffer is untouched, and each round but the last one has used up a
  read that would block. -/
  unresolved : s.result = none → s.buf = .new buf ∧
    s.rounds + s.wouldBlocks ≤ blocks + (readAhead s).toNat
  resolved : ∀ r, s.result = some r → s.pc = .idle ∧ r = .ok (delivered outcome).length ∧
    s.buf.buf.take (delivered outcome).length = delivered outcome

theorem readOk_new (readiness : ReadinessState) (slot : Option W) (driver : Option ReadinessState) :
    ReadOk buf outcome blocks (ReadSystem.new readiness slot driver buf blocks outcome) where
  script := rfl
  before := rfl
  unresolved := fun _ => ⟨rfl, Nat.le_of_eq (Nat.zero_add _)⟩
  resolved := fun _ h => by cases h

/-- The read has its outcome, and the future is ready. -/
theorem ReadOk.finish (h : ReadOk buf (.ok bytes) blocks s) (hfit : bytes.length ≤ buf.length)
    (hopen : s.result = none) :
    ReadOk buf (.ok bytes) blocks
      ({ s with buf := (s.buf.readInto bytes).advanceFilled bytes.length }.finish (.ok ())) := by
  obtain ⟨hbuf, -⟩ := h.unresolved hopen
  rw [hbuf, readInto_new hfit]
  constructor
  case script => exact h.script
  case before => exact h.before
  case unresolved =>
    intro hnone
    cases hnone
  case resolved =>
    intro r hr
    cases hr
    simp [ReadSystem.finish, readFutureAnswer, ReadBuf.filledSlice, h.before, delivered]

/-- The read has failed. The answer of `poll_read` is dropped, and nothing was filled. -/
theorem ReadOk.fail {e : E} (h : ReadOk buf (.error e) blocks s) (hopen : s.result = none) :
    ReadOk buf (.error e) blocks (s.finish (.error e)) := by
  obtain ⟨hbuf, -⟩ := h.unresolved hopen
  constructor
  case script => exact h.script
  case before => exact h.before
  case unresolved =>
    intro hnone
    cases hnone
  case resolved =>
    intro r hr
    cases hr
    simp [ReadSystem.finish, readFutureAnswer, ReadBuf.filledSlice, ReadBuf.new, hbuf, delivered]

variable {readiness : ReadinessState} {slot : Option W} {driver : Option ReadinessState}

/-- A step of the poll that does not end it. -/
theorem ReadOk.move (h : ReadOk buf outcome blocks s) (hopen : s.result = none) {wouldBlocks : Nat}
    {pc : ReadPc W} (hcount : s.rounds + wouldBlocks ≤ blocks +
      (readAhead { s with readiness, wouldBlocks, slot, pc }).toNat) :
    ReadOk buf outcome blocks { s with readiness, wouldBlocks, slot, pc } where
  script := h.script
  before := h.before
  unresolved := fun _ => ⟨(h.unresolved hopen).1, hcount⟩
  resolved := fun r hr => by
    have hr : s.result = some r := hr
    rw [hopen] at hr
    cases hr

/-- The steps of the reader within a poll. -/
theorem ReadOk.stepReader (h : ReadOk buf outcome blocks s)
    (hfit : (delivered outcome).length ≤ buf.length)
    (hstep : s.stepReader = some s') : ReadOk buf outcome blocks s' := by
  have hopen : s.result = none := by
    cases hresult : s.result with
    | none => rfl
    | some r =>
        rw [ReadSystem.stepReader, (h.resolved r hresult).1] at hstep
        cases hstep
  have hcount := (h.unresolved hopen).2
  unfold ReadSystem.stepReader at hstep
  split at hstep
  · cases hstep
  · -- isReady
    rename_i hpc
    split at hstep
    · rename_i hready
      cases hstep
      simp only [readAhead, hpc, hready] at hcount
      exact h.move hopen hcount
    · rename_i hready
      cases hstep
      simp only [readAhead, hpc, hready] at hcount
      exact h.move hopen hcount
  · -- lock
    rename_i hpc
    cases hstep
    simp only [readAhead, hpc] at hcount
    exact h.move hopen hcount
  · -- recheck
    rename_i hpc
    simp only [readAhead, hpc] at hcount
    split at hstep
    · cases hstep
      exact h.move hopen (Nat.le_succ_of_le hcount)
    · cases hstep
      exact h.move hopen hcount
  · -- store
    rename_i hpc
    cases hstep
    simp only [readAhead, hpc] at hcount
    exact h.move hopen hcount
  · -- read
    rename_i hpc
    cases hstep
    simp only [readAhead, hpc, Bool.toNat_true] at hcount
    unfold ReadSystem.pollRead
    split
    · -- This round uses up a read that would block.
      rename_i k hblocks
      refine h.move hopen ?_
      show s.rounds + k ≤ blocks + 0
      omega
    · split
      · rename_i read hread
        obtain rfl := h.script.symm.trans hread
        exact h.finish hfit hopen
      · rename_i e hread
        obtain rfl := h.script.symm.trans hread
        exact h.fail hopen
  · -- clear
    rename_i hpc
    cases hstep
    simp only [readAhead, hpc] at hcount
    exact h.move hopen (Nat.le_add_right_of_le hcount)

/-- The driver takes no readiness away. -/
theorem ReadOk.driverMove (h : ReadOk buf outcome blocks s) {woken : List W}
    (hready : (s.readiness.isReady .readable).isSome = true →
      (readiness.isReady .readable).isSome = true) :
    ReadOk buf outcome blocks { s with readiness, slot, driver, woken } where
  script := h.script
  before := h.before
  unresolved := fun hopen => by
    obtain ⟨hbuf, hcount⟩ := h.unresolved hopen
    refine ⟨hbuf, hcount.trans (Nat.add_le_add_left ?_ _)⟩
    refine Bool.toNat_le_toNat fun hahead => ?_
    cases hpc : s.pc with
    | isReady waker =>
        simp only [readAhead, hpc] at hahead ⊢
        exact hready hahead
    | read => rfl
    | _ => simp [readAhead, hpc] at hahead
  resolved := h.resolved

/-- Every step keeps `ReadOk`. -/
theorem ReadOk.step {a : ReadAction W} (h : ReadOk buf outcome blocks s)
    (hfit : (delivered outcome).length ≤ buf.length) (hstep : s.step a = some s') :
    ReadOk buf outcome blocks s' := by
  cases a with
  | poll waker =>
      simp only [ReadSystem.step] at hstep
      split at hstep
      · rename_i hpc hopen
        cases hstep
        obtain ⟨hbuf, hcount⟩ := h.unresolved hopen
        simp only [readAhead, hpc, Bool.toNat_false] at hcount
        have hbefore : s.buf.filledSlice.length = 0 := by
          rw [hbuf]
          rfl
        refine ⟨h.script, hbefore, fun _ => ⟨hbuf, ?_⟩, fun r hr => ?_⟩
        · show (if _ then _ else _) + s.wouldBlocks ≤
            blocks + ((s.readiness.isReady .readable).isSome).toNat
          cases (s.readiness.isReady .readable).isSome with
          | true =>
              show s.rounds + 1 + s.wouldBlocks ≤ blocks + 1
              omega
          | false => exact hcount
        · have hr : s.result = some r := hr
          rw [hopen] at hr
          cases hr
      · cases hstep
  | advance => exact h.stepReader hfit hstep
  | event state =>
      obtain ⟨-, rfl⟩ := Option.ite_some_none_eq_some.mp hstep
      exact h.driverMove isReady_markState
  | wakeAll =>
      simp only [ReadSystem.step] at hstep
      split at hstep
      · split at hstep
        · cases hstep
        · split at hstep <;> cases hstep <;> exact h.driverMove id
      · cases hstep

theorem readOk_of_reaches (hfit : (delivered outcome).length ≤ buf.length)
    (hrun : Reaches ReadSystem.step anyStep
      (ReadSystem.new readiness slot driver buf blocks outcome) s) : ReadOk buf outcome blocks s :=
  hrun.invariant (readOk_new readiness slot driver) fun _ _ _ hok _ hstep => hok.step hfit hstep

/-- There is a result after one more round than the read would block. -/
theorem ReadOk.result_of_rounds (h : ReadOk buf outcome blocks s) (hidle : s.pc = .idle)
    (hrounds : blocks < s.rounds) : s.result = some (.ok (delivered outcome).length) := by
  cases hresult : s.result with
  | some r => rw [(h.resolved r hresult).2.1]
  | none =>
      have hcount := (h.unresolved hresult).2
      simp only [readAhead, hidle, Bool.toNat_false] at hcount
      omega

/-- Where the read ends in an error, a result is `Ok(0)`, and it is there after as many polls of a
readable file descriptor as the read would block, and one more. -/
theorem failed_read_resolves_to_zero {e : E} (hrun : Reaches ReadSystem.step anyStep
      (ReadSystem.new readiness slot driver buf blocks (.error e)) s) :
    (∀ r, s.result = some r → r = .ok 0) ∧
      (s.pc = .idle → blocks < s.rounds → s.result = some (.ok 0)) := by
  have hok := readOk_of_reaches (Nat.zero_le _) hrun
  exact ⟨fun r hr => (hok.resolved r hr).2.1, hok.result_of_rounds⟩

/-- Where the read ends in bytes, a result is the number of bytes, with the bytes at the front of
the buffer. The result is there after as many polls of a readable file descriptor as the read would
block, and one more. Every poll ends: it can always make its next step, and then there are fewer
steps left. -/
theorem read_resolves_to_bytes {readiness : ReadinessState} {slot : Option W}
    {driver : Option ReadinessState} (hfit : bytes.length ≤ buf.length)
    (hrun : Reaches ReadSystem.step anyStep
      (ReadSystem.new (E := E) readiness slot driver buf blocks (.ok bytes)) s) :
    (∀ r, s.result = some r → r = .ok bytes.length ∧ s.buf.buf.take bytes.length = bytes) ∧
      (s.pc = .idle → blocks < s.rounds → s.result = some (.ok bytes.length)) ∧
      (s.pc ≠ .idle → ∃ s', s.step .advance = some s' ∧ stepsLeft s' < stepsLeft s) ∧
      (∀ a s', s.pc ≠ .idle → s.step a = some s' → stepsLeft s' ≤ stepsLeft s) := by
  have hok : ReadOk buf (.ok bytes) blocks s := readOk_of_reaches hfit hrun
  refine ⟨fun r hr => (hok.resolved r hr).2, hok.result_of_rounds, ?_, ?_⟩
  · intro hbusy
    obtain ⟨s', hstep⟩ := exists_stepReader hbusy
    exact ⟨s', hstep, stepReader_stepsLeft hstep⟩
  · intro a s' hbusy hstep
    cases a with
    | poll waker =>
        simp only [ReadSystem.step] at hstep
        split at hstep
        · rename_i hidle _
          exact absurd hidle hbusy
        · cases hstep
    | advance => exact (stepReader_stepsLeft hstep).le
    | event state => exact (driver_stepsLeft hstep (Or.inr ⟨state, rfl⟩)).le
    | wakeAll => exact (driver_stepsLeft hstep (Or.inl rfl)).le

/-- The read would block once, and the second poll of a readable file descriptor has the bytes. -/
theorem read_resolves_to_bytes_second :
    ∃ s : ReadSystem Unit Nat,
      Reaches ReadSystem.step anyStep (.new ⟨0⟩ none none [0, 0, 0] 1 (.ok [7, 8])) s ∧
        s.result = some (.ok 2) ∧ s.buf.buf = [7, 8, 0] := by
  have hexists : ∃ s : ReadSystem Unit Nat,
      Reaches ReadSystem.step anyStep (.new ⟨0⟩ none none [0, 0, 0] 1 (.ok [7, 8])) s ∧
        s.pc = .idle ∧ 1 < s.rounds ∧ s.buf.buf = [7, 8, 0] :=
    exists_reaches
      ([ReadAction.event ⟨1⟩, .wakeAll, .poll 5, .advance, .advance, .advance, .advance, .advance,
          .advance, .advance] ++
        [ReadAction.event ⟨1⟩, .wakeAll, .poll 5, .advance, .advance])
      (by decide)
  obtain ⟨s, hrun, hidle, hrounds, hbuf⟩ := hexists
  exact ⟨s, hrun, (read_resolves_to_bytes (by decide) hrun).2.1 hidle hrounds, hbuf⟩

/-- The read fails, and the future resolves to `Ok(0)`. -/
theorem read_error_becomes_zero :
    ∃ s : ReadSystem Unit Nat,
      Reaches ReadSystem.step anyStep (.new ⟨0⟩ none none [0, 0, 0] 0 (.error ())) s ∧
        s.result = some (.ok 0) :=
  exists_reaches [ReadAction.event ⟨1⟩, .wakeAll, .poll 5, .advance, .advance] (by decide)

end Result

end Kyron.Proofs.Io
