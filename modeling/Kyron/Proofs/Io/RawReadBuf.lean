import Kyron.Io.RawReadBuf
import Kyron.Io.ReadFuture

/-!
# `Kyron.Proofs.Io.RawReadBuf`: the counters of a read buffer

`Ordered b` is `filled ≤ initialized ≤ capacity`. From such a buffer every call has one of the
outcomes of `Outcome` (`exec_outcome`), and what is true of every call is read off them. The one
method that can leave `Ordered` is `advance_filled`, which compares with nothing.

* `runCalls_read_eq`: the buffer of `Kyron.Io.ReadFuture` is this one with initialised memory.
* `read_buf_keeps_counters`: the counters, the panics, the initialised bytes and the slices that
  were put, over every sequence of calls that keeps `advance_filled` within the initialised bytes.
* `advance_filled_exposes`: one call of it shows an uninitialised byte.
-/

set_option autoImplicit false

namespace Kyron.Proofs.Io

open Kyron.Io
open Kyron.Lib
open RawReadBuf

variable {b : RawReadBuf} {checks : Bool}

/-- `filled ≤ initialized ≤ capacity`. -/
structure Ordered (b : RawReadBuf) : Prop where
  filled_le : b.filled.toNat ≤ b.initialized.toNat
  initialized_le : b.initialized.toNat ≤ b.buf.length

theorem Ordered.filled_le_length (h : Ordered b) : b.filled.toNat ≤ b.buf.length :=
  Nat.le_trans h.filled_le h.initialized_le

/-! ### Runs of the parts -/

theorem toNat_length (b : RawReadBuf) : (UInt64.ofNat b.buf.length).toNat = b.buf.length := by
  have hlt := b.len_lt
  exact UInt64.toNat_ofNat_of_lt' (by rw [UInt64.size]; omega)

theorem toNat_slice (buf : PutBuf) : (UInt64.ofNat buf.val.length).toNat = buf.val.length := by
  exact UInt64.toNat_ofNat_of_lt' (by rw [UInt64.size]; omega)

@[simp] theorem capacity_run :
    RawReadBuf.capacity.run b = .ok (UInt64.ofNat b.buf.length) b :=
  rfl

theorem addUsize_run {x y : UInt64} (h : x.toNat + y.toNat < 2 ^ 64) :
    (RawReadBuf.addUsize checks x y).run b = .ok (x + y) b := by
  have hnot : ¬ (checks = true ∧ 2 ^ 64 ≤ x.toNat + y.toNat) := fun hover => by omega
  rw [addUsize, if_neg hnot]
  rfl

/-- The bytes that can still be filled. -/
def room (b : RawReadBuf) : UInt64 := UInt64.ofNat b.buf.length - b.filled

theorem toNat_room (h : Ordered b) : (room b).toNat = b.buf.length - b.filled.toNat := by
  have hle : b.filled ≤ UInt64.ofNat b.buf.length := by
    rw [UInt64.le_iff_toNat_le, toNat_length]
    exact h.filled_le_length
  rw [room, UInt64.toNat_sub_of_le _ _ hle, toNat_length]

theorem remaining_run (h : Ordered b) :
    (RawReadBuf.remaining checks).run b = .ok (room b) b := by
  have hnot : ¬ (checks = true ∧ UInt64.ofNat b.buf.length < b.filled) := by
    rw [UInt64.lt_iff_toNat_lt, toNat_length]
    exact fun hover => absurd hover.2 (Nat.not_lt.mpr h.filled_le_length)
  simp only [remaining, EStateM.run_bind, capacity_run, EStateM.run_get, subUsize, if_neg hnot]
  rfl

theorem slice_run {start stop : UInt64} (hstart : start.toNat ≤ stop.toNat)
    (hstop : stop.toNat ≤ b.buf.length) :
    (RawReadBuf.slice start stop).run b = .ok ((b.buf.take stop.toNat).drop start.toNat) b := by
  have hrange : start ≤ stop ∧ stop.toNat ≤ b.buf.length :=
    ⟨UInt64.le_iff_toNat_le.mpr hstart, hstop⟩
  simp only [slice, EStateM.run_bind, EStateM.run_get, if_pos hrange]
  rfl

theorem sliceMut_run {start stop : UInt64} {write : Nat → Option (Option UInt8)}
    (hstart : start.toNat ≤ stop.toNat) (hstop : stop.toNat ≤ b.buf.length) :
    (RawReadBuf.sliceMut start stop write).run b =
      .ok ((b.buf.take stop.toNat).drop start.toNat)
        (b.overwrite start.toNat stop.toNat write) := by
  simp only [sliceMut, EStateM.run_bind, slice_run hstart hstop, EStateM.run_modify,
    EStateM.run_pure]

theorem assertThat_run {cond : Bool} {message : String} :
    (RawReadBuf.assertThat cond message).run b =
      if cond then .ok () b else .error (.assertion message) b := by
  cases cond <;> rfl

/-! ### Runs of the methods -/

/-- What `put_slice` writes. -/
def putWrite (buf : PutBuf) (j : Nat) : Option (Option UInt8) := (buf.val[j]?).map some

/-- The value of `filled` after `put_slice`. -/
def putStop (b : RawReadBuf) (buf : PutBuf) : UInt64 := b.filled + UInt64.ofNat buf.val.length

/-- The buffer after `put_slice`. -/
def afterPut (b : RawReadBuf) (buf : PutBuf) : RawReadBuf :=
  { b.overwrite b.filled.toNat (putStop b buf).toNat (putWrite buf) with
    filled := putStop b buf
    initialized := if b.initialized < putStop b buf then putStop b buf else b.initialized }

theorem buf_afterPut (b : RawReadBuf) (buf : PutBuf) :
    (afterPut b buf).buf =
      (b.overwrite b.filled.toNat (putStop b buf).toNat (putWrite buf)).buf :=
  rfl

variable {buf : PutBuf} {new : Nat → Option (Option UInt8)} {start stop : Nat}

theorem toNat_putStop (h : Ordered b) (hroom : buf.val.length ≤ b.buf.length - b.filled.toNat) :
    (putStop b buf).toNat = b.filled.toNat + buf.val.length := by
  have hsum := Nat.add_le_of_le_sub' h.filled_le_length hroom
  have hlt := b.len_lt
  rw [putStop, UInt64.toNat_add, toNat_slice, Nat.mod_eq_of_lt (by omega)]

/-- `put_slice` writes if there is room, and fails its assertion otherwise. -/
theorem putSlice_run (h : Ordered b) (buf : PutBuf) :
    (RawReadBuf.putSlice checks buf).run b =
      if buf.val.length ≤ b.buf.length - b.filled.toNat then .ok () (afterPut b buf)
      else .error (.assertion "Cannot put slice more than capacity") b := by
  have hfits : decide (UInt64.ofNat buf.val.length ≤ room b) =
      decide (buf.val.length ≤ b.buf.length - b.filled.toNat) := by
    rw [decide_eq_decide, UInt64.le_iff_toNat_le, toNat_slice, toNat_room h]
  simp only [putSlice, EStateM.run_bind, remaining_run h, assertThat_run, hfits]
  by_cases hroom : buf.val.length ≤ b.buf.length - b.filled.toNat
  · have hlt := b.len_lt
    have hle := h.filled_le_length
    have hsum : b.filled.toNat + (UInt64.ofNat buf.val.length).toNat < 2 ^ 64 := by
      rw [toNat_slice]
      omega
    have hstop := toNat_putStop h hroom
    unfold putStop at hstop
    -- The sum fits, so the addition and the slice succeed with and without overflow checks.
    simp only [decide_eq_true hroom, if_true, EStateM.run_get, addUsize_run hsum]
    rw [sliceMut_run (by omega) (by omega)]
    simp only [overwrite, addUsize_run hsum, EStateM.run_modify]
    rw [if_pos hroom]
    unfold afterPut putStop
    by_cases hinit : b.initialized < b.filled + UInt64.ofNat buf.val.length
    · simp only [if_pos hinit, EStateM.run_set]
      rfl
    · simp only [if_neg hinit, EStateM.run_pure]
      rfl
  · simp [hroom]

/-- What `init_unfilled` writes. -/
def zeros (b : RawReadBuf) (j : Nat) : Option (Option UInt8) :=
  if j < (room b).toNat then some (some 0) else none

/-- What a caller writes that has a slice of initialised bytes. -/
def byteWrite (write : SliceWrite) (j : Nat) : Option (Option UInt8) := (write j).map some

/-- The buffer after `init_unfilled`. -/
def afterZeros (b : RawReadBuf) : RawReadBuf :=
  { b.overwrite b.filled.toNat b.buf.length (zeros b) with
    initialized := UInt64.ofNat b.buf.length }

/-- The buffer after `initialize_unfilled` and what its caller writes. -/
def afterInitialize (b : RawReadBuf) (write : SliceWrite) : RawReadBuf :=
  (afterZeros b).overwrite b.filled.toNat b.buf.length (byteWrite write)

theorem filled_add_room (b : RawReadBuf) : b.filled + room b = UInt64.ofNat b.buf.length := by
  rw [room, UInt64.add_comm, UInt64.sub_add_cancel]

theorem length_overwrite (b : RawReadBuf) (start stop : Nat) (new : Nat → Option (Option UInt8)) :
    (b.overwrite start stop new).buf.length = b.buf.length := by
  simp [overwrite]

theorem length_afterZeros (b : RawReadBuf) : (afterZeros b).buf.length = b.buf.length :=
  length_overwrite b _ _ _

/-- After `init_unfilled` all of the buffer is initialized. -/
theorem initUnfilled_run (h : Ordered b) :
    (RawReadBuf.initUnfilled checks (room b)).run b =
      .ok () (afterZeros b) := by
  have hle := h.filled_le_length
  have hlt := b.len_lt
  have hsum : b.filled.toNat + (room b).toNat < 2 ^ 64 := by
    rw [toNat_room h]
    omega
  simp only [initUnfilled, EStateM.run_bind, remaining_run h, assertThat_run,
    UInt64.le_refl, decide_true, if_true, EStateM.run_get, addUsize_run hsum, filled_add_room]
  rw [sliceMut_run (by rw [toNat_length]; exact hle) (Nat.le_of_eq (toNat_length b))]
  dsimp only
  rw [toNat_length]
  by_cases hinit : b.initialized < UInt64.ofNat b.buf.length
  · rw [if_pos (show (b.overwrite _ _ _).initialized < _ from hinit)]
    rfl
  · rw [if_neg (show ¬ (b.overwrite _ _ _).initialized < _ from hinit)]
    -- All bytes were initialised before.
    have heq : b.initialized = UInt64.ofNat b.buf.length := by
      refine UInt64.toNat_inj.mp (Nat.le_antisymm ?_ ?_)
      · rw [toNat_length]
        exact h.initialized_le
      · exact Nat.not_lt.mp fun hlt => hinit (UInt64.lt_iff_toNat_lt.mpr hlt)
    unfold afterZeros
    rw [← heq]
    rfl

/-- The caller gets a slice of bytes, all of them initialized. -/
theorem initializeUnfilled_run (checks : Bool) (h : Ordered b) (write : SliceWrite) :
    ∃ bytes, (RawReadBuf.initializeUnfilled checks write).run b =
      .ok bytes (afterInitialize b write) := by
  simp only [initializeUnfilled, EStateM.run_bind, remaining_run h, initUnfilled_run h,
    EStateM.run_get, capacity_run, length_afterZeros]
  rw [sliceMut_run]
  · refine ⟨_, congrArg (EStateM.Result.ok _) ?_⟩
    rw [toNat_length]
    rfl
  · rw [toNat_length]
    exact h.filled_le_length
  · exact Nat.le_of_eq (by rw [toNat_length, length_afterZeros])

theorem advanceFilled_run {n : UInt64} (h : b.filled.toNat + n.toNat < 2 ^ 64) :
    ((ReadBufCall.advanceFilled n).exec checks).run b =
      .ok .unit { b with filled := b.filled + n } := by
  simp only [ReadBufCall.exec, advanceFilled, EStateM.run_bind, EStateM.run_get, if_pos h]
  rfl

theorem initializedUnfilledMut_run (h : Ordered b) (write : SliceWrite) :
    ((ReadBufCall.initializedUnfilledMut write).exec checks).run b =
      .ok (.slice ((b.buf.take b.initialized.toNat).drop b.filled.toNat))
        (b.overwrite b.filled.toNat b.initialized.toNat (byteWrite write)) := by
  simp only [ReadBufCall.exec, initializedUnfilledMut, EStateM.run_bind, EStateM.run_get,
    sliceMut_run h.filled_le h.initialized_le]
  rfl

/-! ### Outcomes -/

/-- The calls that leave `filled` and the filled bytes alone, but for what `put_slice` adds. -/
def keepsFilled : ReadBufCall → Bool
  | .clear | .setFilled _ | .advanceFilled _ | .filledMut _ | .initializedMut _ => false
  | _ => true

/-- `advance_filled` does not go beyond the initialised bytes, and what is written into the slice of
`unfilled_mut` leaves the initialised bytes initialised. -/
def WithinInitialized (b : RawReadBuf) : ReadBufCall → Prop
  | .advanceFilled n =>
      b.filled.toNat + n.toNat < 2 ^ 64 → b.filled.toNat + n.toNat ≤ b.initialized.toNat
  | .unfilledMut write => ∀ j < b.initialized.toNat - b.filled.toNat, write j ≠ some none
  | _ => True

/-- What a call can do to a buffer whose counters are in order. -/
inductive Outcome (b : RawReadBuf) :
    ReadBufCall → EStateM.Result ReadBufPanic RawReadBuf ReadBufAnswer → Prop
  | panics (call : ReadBufCall) (e : ReadBufPanic) : Outcome b call (.error e b)
  | reads (call : ReadBufCall) (a : ReadBufAnswer) (hput : ∀ buf, call ≠ .putSlice buf) :
      Outcome b call (.ok a b)
  | moves (call : ReadBufCall) (filled : UInt64) (hcall : keepsFilled call = false)
      (hle : WithinInitialized b call → filled.toNat ≤ b.initialized.toNat) :
      Outcome b call (.ok .unit { b with filled })
  | puts (buf : PutBuf) (hroom : buf.val.length ≤ b.buf.length - b.filled.toNat) :
      Outcome b (.putSlice buf) (.ok .unit (afterPut b buf))
  | edits (call : ReadBufCall) (a : ReadBufAnswer) (start stop : Nat)
      (new : Nat → Option (Option UInt8)) (hput : ∀ buf, call ≠ .putSlice buf)
      (hnew : WithinInitialized b call → ∀ i, start ≤ i → i < b.initialized.toNat →
        new (i - start) ≠ some none)
      (hkeeps : keepsFilled call = true → b.filled.toNat ≤ start) :
      Outcome b call (.ok a (b.overwrite start stop new))
  | initializes (write : SliceWrite) (a : ReadBufAnswer) :
      Outcome b (.initializeUnfilled write) (.ok a (afterInitialize b write))

theorem byteWrite_ne (write : SliceWrite) (j : Nat) : byteWrite write j ≠ some none := by
  unfold byteWrite
  cases write j <;> simp

/-- Every call has the outcome that is listed for it. -/
theorem exec_outcome (checks : Bool) (h : Ordered b) (call : ReadBufCall) :
    Outcome b call ((call.exec checks).run b) := by
  have hfilled := h.filled_le
  have hinit := h.initialized_le
  have hle := h.filled_le_length
  cases call with
  | capacity => exact .reads _ _ fun _ heq => by cases heq
  | remaining =>
      simp only [ReadBufCall.exec, EStateM.run_bind, remaining_run h]
      exact .reads _ _ fun _ heq => by cases heq
  | clear => exact .moves _ _ rfl fun _ => Nat.zero_le _
  | unfilledMut write =>
      -- The slice begins in front of bytes that are initialised, and may be written with others.
      simp only [ReadBufCall.exec, unfilledMut, EStateM.run_bind, EStateM.run_get, capacity_run]
      rw [sliceMut_run (by rw [toNat_length]; exact hle) (Nat.le_of_eq (toNat_length b))]
      refine .edits _ _ _ _ _ (fun _ heq => by cases heq) (fun hguard i hi hlt => ?_)
        fun _ => Nat.le_refl _
      exact hguard _ (by omega)
  | filled =>
      simp only [ReadBufCall.exec, filledSlice, EStateM.run_bind, EStateM.run_get]
      rw [slice_run (Nat.zero_le _) hle]
      exact .reads _ _ fun _ heq => by cases heq
  | filledMut write =>
      simp only [ReadBufCall.exec, filledMut, EStateM.run_bind, EStateM.run_get]
      rw [sliceMut_run (Nat.zero_le _) hle]
      exact .edits _ _ _ _ _ (fun _ heq => by cases heq) (fun _ _ _ _ => byteWrite_ne write _)
        fun hkeeps => by cases hkeeps
  | initialized =>
      simp only [ReadBufCall.exec, initializedSlice, EStateM.run_bind, EStateM.run_get]
      rw [slice_run (Nat.zero_le _) hinit]
      exact .reads _ _ fun _ heq => by cases heq
  | initializedMut write =>
      simp only [ReadBufCall.exec, initializedMut, EStateM.run_bind, EStateM.run_get]
      rw [sliceMut_run (Nat.zero_le _) hinit]
      exact .edits _ _ _ _ _ (fun _ heq => by cases heq) (fun _ _ _ _ => byteWrite_ne write _)
        fun hkeeps => by cases hkeeps
  | setFilled n =>
      simp only [ReadBufCall.exec, setFilled, EStateM.run_bind, EStateM.run_get, assertThat_run]
      by_cases hn : n ≤ b.initialized
      · simp only [decide_eq_true hn, if_true]
        exact .moves _ _ rfl fun _ => UInt64.le_iff_toNat_le.mp hn
      · simp only [decide_eq_false hn, Bool.false_eq_true, if_false]
        exact .panics _ _
  | advanceFilled n =>
      by_cases hn : b.filled.toNat + n.toNat < 2 ^ 64
      · -- The method does not look at `initialized`.
        rw [advanceFilled_run hn]
        refine .moves _ _ rfl fun hguard => ?_
        rw [UInt64.toNat_add, Nat.mod_eq_of_lt hn]
        exact hguard hn
      · simp only [ReadBufCall.exec, advanceFilled, EStateM.run_bind, EStateM.run_get, if_neg hn]
        exact .panics _ _
  | putSlice buf =>
      simp only [ReadBufCall.exec, EStateM.run_bind, putSlice_run h]
      by_cases hroom : buf.val.length ≤ b.buf.length - b.filled.toNat
      · simp only [if_pos hroom]
        exact .puts buf hroom
      · simp only [if_neg hroom]
        exact .panics _ _
  | initializeUnfilled write =>
      obtain ⟨bytes, hrun⟩ := initializeUnfilled_run checks h write
      simp only [ReadBufCall.exec, EStateM.run_bind, hrun]
      exact .initializes write _
  | initializedUnfilled =>
      simp only [ReadBufCall.exec, initializedUnfilled, EStateM.run_bind, EStateM.run_get]
      rw [slice_run hfilled hinit]
      exact .reads _ _ fun _ heq => by cases heq
  | initializedUnfilledMut write =>
      rw [initializedUnfilledMut_run h]
      exact .edits _ _ _ _ _ (fun _ heq => by cases heq) (fun _ _ _ _ => byteWrite_ne write _)
        fun _ => Nat.le_refl _

/-! ### What every call keeps -/

variable {call : ReadBufCall} {r : EStateM.Result ReadBufPanic RawReadBuf ReadBufAnswer}

/-- Bytes that were put are initialized. -/
theorem toNat_initialized_afterPut (h : Ordered b)
    (hroom : buf.val.length ≤ b.buf.length - b.filled.toNat) : (afterPut b buf).initialized.toNat =
      max b.initialized.toNat (b.filled.toNat + buf.val.length) := by
  have hstop := toNat_putStop h hroom
  simp only [afterPut]
  split
  · rename_i hlt
    rw [UInt64.lt_iff_toNat_lt] at hlt
    omega
  · rename_i hnot
    rw [UInt64.lt_iff_toNat_lt] at hnot
    omega

/-- Only a call that sets `filled` needs its guard. -/
theorem Outcome.ordered (hout : Outcome b call r) (h : Ordered b)
    (hguard : keepsFilled call = false → WithinInitialized b call) : Ordered (bufferAfter r) := by
  cases hout with
  | panics | reads => exact h
  | moves _ filled hcall hle => exact ⟨hle (hguard hcall), h.initialized_le⟩
  | puts buf hroom =>
      have hle := h.filled_le_length
      have hinit := h.initialized_le
      have hstop := toNat_putStop h hroom
      have hmax := toNat_initialized_afterPut h hroom
      refine ⟨?_, ?_⟩
      · show (putStop b buf).toNat ≤ (afterPut b buf).initialized.toNat
        omega
      · show (afterPut b buf).initialized.toNat ≤ (afterPut b buf).buf.length
        rw [buf_afterPut, length_overwrite]
        omega
  | edits _ _ start stop new =>
      refine ⟨h.filled_le, ?_⟩
      show b.initialized.toNat ≤ (b.overwrite start stop new).buf.length
      rw [length_overwrite]
      exact h.initialized_le
  | initializes write =>
      refine ⟨?_, ?_⟩
      · show b.filled.toNat ≤ (UInt64.ofNat b.buf.length).toNat
        rw [toNat_length]
        exact h.filled_le_length
      · show (UInt64.ofNat b.buf.length).toNat ≤ ((afterZeros b).overwrite _ _ _).buf.length
        exact Nat.le_of_eq (by rw [toNat_length, length_overwrite, length_afterZeros])

/-- A call that panics leaves the buffer as it was. -/
theorem Outcome.error {e : ReadBufPanic} {b' : RawReadBuf} (hout : Outcome b call (.error e b')) :
    b' = b := by
  cases hout with
  | panics => rfl

/-- The bytes that count as initialised are so. -/
def InitializedBytes (b : RawReadBuf) : Prop :=
  ∀ i < b.initialized.toNat, ∃ byte, b.buf[i]? = some (some byte)

theorem getElem?_overwrite (b : RawReadBuf) (start stop : Nat) (new : Nat → Option (Option UInt8))
    (i : Nat) :
    (b.overwrite start stop new).buf[i]? = (b.buf[i]?).map fun old =>
      if start ≤ i ∧ i < stop then (new (i - start)).getD old else old := by
  simp [overwrite]

/-- A byte that is initialised stays so when it is not overwritten with an uninitialised one. -/
theorem exists_byte_overwrite {i : Nat} (hold : ∃ byte, b.buf[i]? = some (some byte))
    (hnew : start ≤ i → i < stop → new (i - start) ≠ some none) :
    ∃ byte, (b.overwrite start stop new).buf[i]? = some (some byte) := by
  obtain ⟨byte, hbyte⟩ := hold
  rw [getElem?_overwrite, hbyte, Option.map_some]
  split
  · rename_i hin
    cases hwritten : new (i - start) with
    | none => exact ⟨byte, rfl⟩
    | some written =>
        cases written with
        | none => exact absurd hwritten (hnew hin.1 hin.2)
        | some byte' => exact ⟨byte', rfl⟩
  · exact ⟨byte, rfl⟩

/-- Where every byte of a range is written, it is initialised. -/
theorem exists_byte_written {i : Nat} (hstart : start ≤ i) (hstop : i < stop)
    (hlen : i < b.buf.length) (hnew : ∃ byte, new (i - start) = some (some byte)) :
    ∃ byte, (b.overwrite start stop new).buf[i]? = some (some byte) := by
  obtain ⟨byte, hbyte⟩ := hnew
  refine ⟨byte, ?_⟩
  rw [getElem?_overwrite, List.getElem?_eq_getElem hlen, Option.map_some,
    if_pos ⟨hstart, hstop⟩, hbyte]
  rfl

/-- Below `initialized` there are only bytes that were written. -/
theorem Outcome.initializedBytes (hout : Outcome b call r) (h : Ordered b)
    (hbytes : InitializedBytes b) (hguard : WithinInitialized b call) :
    InitializedBytes (bufferAfter r) := by
  cases hout with
  | panics | reads | moves => exact hbytes
  | puts buf hroom =>
      intro i hi
      have hlt : i < (afterPut b buf).initialized.toNat := hi
      rw [toNat_initialized_afterPut h hroom] at hlt
      show ∃ byte, (afterPut b buf).buf[i]? = some (some byte)
      rw [buf_afterPut, toNat_putStop h hroom]
      by_cases hin : b.filled.toNat ≤ i ∧ i < b.filled.toNat + buf.val.length
      · refine exists_byte_written hin.1 hin.2 (by omega) ?_
        unfold putWrite
        rw [List.getElem?_eq_getElem (show i - b.filled.toNat < buf.val.length by omega)]
        exact ⟨_, rfl⟩
      · have hold : i < b.initialized.toNat := by
          have hfilled := h.filled_le
          rcases Nat.lt_or_ge i b.initialized.toNat with hlow | hhigh
          · exact hlow
          · rw [Nat.max_def] at hlt
            split at hlt <;> omega
        exact exists_byte_overwrite (hbytes i hold) fun h1 h2 => absurd ⟨h1, h2⟩ hin
  | edits _ _ start stop new _ hnew =>
      intro i hi
      exact exists_byte_overwrite (hbytes i hi) fun hstart _ => hnew hguard i hstart hi
  | initializes write =>
      intro i hi
      have hlt : i < (UInt64.ofNat b.buf.length).toNat := hi
      rw [toNat_length] at hlt
      -- The unfilled bytes are zero before the caller writes, the others are as they were.
      have hzeros : ∃ byte, (afterZeros b).buf[i]? = some (some byte) := by
        by_cases hstart : b.filled.toNat ≤ i
        · refine exists_byte_written hstart hlt hlt ⟨0, if_pos ?_⟩
          rw [toNat_room h]
          omega
        · have hfilled := h.filled_le
          exact exists_byte_overwrite (hbytes i (by omega)) fun hin _ => absurd hin hstart
      exact exists_byte_overwrite hzeros fun _ _ => byteWrite_ne write _

/-! ### What has been put -/

/-- The filled bytes. -/
def filledBytes (b : RawReadBuf) : List (Option UInt8) := b.buf.take b.filled.toNat

/-- The slice that the call has put. -/
def putOf : ReadBufCall → EStateM.Result ReadBufPanic RawReadBuf ReadBufAnswer → List UInt8
  | .putSlice buf, .ok _ _ => buf.val
  | _, _ => []

/-- The buffer after a list of calls. -/
def runCalls (checks : Bool) : RawReadBuf → List ReadBufCall → RawReadBuf
  | b, [] => b
  | b, call :: calls => runCalls checks (bufferAfter ((call.exec checks).run b)) calls

/-- The slices that the calls of a list have put. -/
def putBytes (checks : Bool) : RawReadBuf → List ReadBufCall → List UInt8
  | _, [] => []
  | b, call :: calls =>
      putOf call ((call.exec checks).run b) ++
        putBytes checks (bufferAfter ((call.exec checks).run b)) calls

/-- What is written behind the first `n` bytes does not change them. -/
theorem take_overwrite {n : Nat} (h : n ≤ start) :
    (b.overwrite start stop new).buf.take n = b.buf.take n := by
  refine List.ext_getElem? fun i => ?_
  rw [List.getElem?_take, List.getElem?_take]
  split
  · rename_i hi
    rw [getElem?_overwrite]
    have hout : ¬ (start ≤ i ∧ i < stop) := by omega
    simp only [if_neg hout, Option.map_id']
  · rfl

/-- `put_slice` appends to the filled part. -/
theorem filledBytes_afterPut (h : Ordered b)
    (hroom : buf.val.length ≤ b.buf.length - b.filled.toNat) :
    filledBytes (afterPut b buf) = filledBytes b ++ buf.val.map some := by
  show (afterPut b buf).buf.take (putStop b buf).toNat = b.buf.take b.filled.toNat ++ _
  rw [buf_afterPut, toNat_putStop h hroom, List.take_add, take_overwrite (Nat.le_refl _)]
  congr 1
  refine List.ext_getElem? fun i => ?_
  rw [List.getElem?_take, List.getElem?_drop, getElem?_overwrite, List.getElem?_map]
  by_cases hi : i < buf.val.length
  · rw [if_pos hi, List.getElem?_eq_getElem (show b.filled.toNat + i < b.buf.length by omega),
      Option.map_some, if_pos ⟨Nat.le_add_right _ _, by omega⟩, Nat.add_sub_cancel_left, putWrite,
      List.getElem?_eq_getElem hi]
    rfl
  · rw [if_neg hi, List.getElem?_eq_none (Nat.not_lt.mp hi)]
    rfl

/-- The filled part grows by the bytes that the call has put. -/
theorem Outcome.filledBytes_eq (hout : Outcome b call r) (h : Ordered b)
    (hkeeps : keepsFilled call = true) :
    filledBytes (bufferAfter r) = filledBytes b ++ (putOf call r).map some := by
  cases hout with
  | panics => cases call <;> simp [bufferAfter, putOf]
  | reads _ a hput =>
      cases call with
      | putSlice buf => exact absurd rfl (hput buf)
      | _ => simp [bufferAfter, putOf]
  | moves _ _ hcall =>
      rw [hkeeps] at hcall
      cases hcall
  | puts buf hroom => exact filledBytes_afterPut h hroom
  | edits _ a start stop new hput _ hstart =>
      have hsame : filledBytes (b.overwrite start stop new) = filledBytes b :=
        take_overwrite (hstart hkeeps)
      cases call with
      | putSlice buf => exact absurd rfl (hput buf)
      | _ => simpa [bufferAfter, putOf] using hsame
  | initializes write a =>
      have hsame : filledBytes (afterInitialize b write) = filledBytes b := by
        have hzeros : (afterZeros b).buf.take b.filled.toNat = b.buf.take b.filled.toNat :=
          take_overwrite (Nat.le_refl _)
        exact (take_overwrite (Nat.le_refl _)).trans hzeros
      simpa [bufferAfter, putOf] using hsame

/-- By induction on the calls: the filled part grows by all that was put. -/
theorem runCalls_filledBytes (checks : Bool) (calls : List ReadBufCall) (h : Ordered b)
    (hkeeps : ∀ call ∈ calls, keepsFilled call = true) :
    Ordered (runCalls checks b calls) ∧
      filledBytes (runCalls checks b calls) =
        filledBytes b ++ (putBytes checks b calls).map some := by
  induction calls generalizing b with
  | nil => exact ⟨h, by simp [runCalls, putBytes]⟩
  | cons call calls ih =>
      have hcall := hkeeps call List.mem_cons_self
      have hout := exec_outcome checks h call
      have hnext := hout.ordered h fun hfalse => by
        rw [hcall] at hfalse
        cases hfalse
      obtain ⟨hordered, hbytes⟩ := ih hnext fun c hc => hkeeps c (List.mem_cons_of_mem _ hc)
      refine ⟨hordered, hbytes.trans ?_⟩
      rw [hout.filledBytes_eq h hcall, putBytes, List.map_append, List.append_assoc]

/-! ### The buffer of the read future -/

/-- The buffer of the read future as one whose memory is initialised. -/
def rawOf (r : ReadBuf) (h : r.buf.length < 2 ^ 63) : RawReadBuf where
  buf := r.buf.map some
  filled := UInt64.ofNat r.filled
  initialized := UInt64.ofNat r.initialized
  len_lt := by simpa using h

section ReadFuture

variable {r : ReadBuf} {bytes : List UInt8} (hfilled : r.filled ≤ r.initialized)
  (hinit : r.initialized ≤ r.buf.length) (hfit : bytes.length ≤ r.initialized - r.filled)

include hfilled hinit hfit

/-- A read replaces the bytes behind the filled part. -/
theorem buf_readInto : (r.readInto bytes).buf =
    r.buf.take r.filled ++ (bytes ++ r.buf.drop (r.filled + bytes.length)) := by
  have hspace : ((r.buf.take r.initialized).drop r.filled).length = r.initialized - r.filled := by
    rw [List.length_drop, List.length_take, Nat.min_eq_left hinit]
  have hrest : ((r.buf.take r.initialized).drop r.filled).drop bytes.length ++
      r.buf.drop r.initialized = r.buf.drop (r.filled + bytes.length) := by
    have hle : r.filled + bytes.length ≤ (r.buf.take r.initialized).length := by
      rw [List.length_take]
      omega
    rw [List.drop_drop, ← List.drop_append_of_le_length hle, List.take_append_drop]
  show r.buf.take r.filled ++ (bytes.take _ ++ _) ++ r.buf.drop r.initialized = _
  rw [hspace, List.take_of_length_le hfit, List.append_assoc, List.append_assoc, hrest]

theorem length_readInto : (r.readInto bytes).buf.length = r.buf.length := by
  rw [buf_readInto hfilled hinit hfit]
  simp only [List.length_append, List.length_take, List.length_drop]
  omega

omit hfilled hinit hfit in
theorem toNat_ofNat_of_le {n : Nat} (hlen : r.buf.length < 2 ^ 63) (hn : n ≤ r.buf.length) :
    (UInt64.ofNat n).toNat = n :=
  UInt64.toNat_ofNat_of_lt' (by rw [UInt64.size]; omega)

/-- The two models of a buffer agree on a read. -/
theorem rawOf_readInto (hlen : r.buf.length < 2 ^ 63) :
    ((rawOf r hlen).overwrite r.filled r.initialized (byteWrite fun j => bytes[j]?)).buf =
      (r.readInto bytes).buf.map some := by
  rw [buf_readInto hfilled hinit hfit]
  refine List.ext_getElem? fun i => ?_
  rw [getElem?_overwrite, List.getElem?_map]
  show Option.map _ ((r.buf.map some)[i]?) = _
  rw [List.getElem?_map]
  by_cases hlow : i < r.filled
  · rw [List.getElem?_append_left (by rw [List.length_take]; omega), List.getElem?_take,
      if_pos hlow]
    cases r.buf[i]? <;> simp [Nat.not_le.mpr hlow]
  · have hge : r.filled ≤ i := Nat.not_lt.mp hlow
    have hlength : (r.buf.take r.filled).length = r.filled := by
      rw [List.length_take]
      omega
    rw [List.getElem?_append_right (by omega), hlength]
    by_cases hin : i - r.filled < bytes.length
    · rw [List.getElem?_append_left hin, List.getElem?_eq_getElem hin,
        List.getElem?_eq_getElem (show i < r.buf.length by omega)]
      have hlt : i < r.initialized := by omega
      simp [hge, hlt, byteWrite, hin]
    · rw [List.getElem?_append_right (Nat.not_lt.mp hin), List.getElem?_drop,
        show r.filled + bytes.length + (i - r.filled - bytes.length) = i by omega]
      have hnone : byteWrite (fun j => bytes[j]?) (i - r.filled) = none := by
        simp only [byteWrite, List.getElem?_eq_none (Nat.not_lt.mp hin), Option.map_none]
      cases r.buf[i]? <;> simp [hnone]

/-- A read that puts its bytes into the slice of `initialized_unfilled_mut` and advances `filled`
does to the buffer what the model of the read future says. -/
theorem runCalls_read_eq (checks : Bool) (hlen : r.buf.length < 2 ^ 63) :
    runCalls checks (rawOf r hlen)
      [.initializedUnfilledMut fun j => bytes[j]?, .advanceFilled (UInt64.ofNat bytes.length)] =
    rawOf ((r.readInto bytes).advanceFilled bytes.length)
      (Nat.lt_of_le_of_lt (Nat.le_of_eq (length_readInto hfilled hinit hfit)) hlen) := by
  have hf : (rawOf r hlen).filled.toNat = r.filled :=
    toNat_ofNat_of_le hlen (Nat.le_trans hfilled hinit)
  have hi : (rawOf r hlen).initialized.toNat = r.initialized := toNat_ofNat_of_le hlen hinit
  have hb : (UInt64.ofNat bytes.length).toNat = bytes.length := toNat_ofNat_of_le hlen (by omega)
  have hordered : Ordered (rawOf r hlen) := by
    refine ⟨by rwa [hf, hi], ?_⟩
    rw [hi, show (rawOf r hlen).buf.length = r.buf.length from List.length_map _]
    exact hinit
  have hsum : (rawOf r hlen).filled.toNat + (UInt64.ofNat bytes.length).toNat < 2 ^ 64 := by
    rw [hf, hb]
    omega
  simp only [runCalls, initializedUnfilledMut_run hordered, bufferAfter]
  rw [advanceFilled_run (b := (rawOf r hlen).overwrite _ _ _) hsum]
  show (⟨_, _, _, _⟩ : RawReadBuf) = ⟨_, _, _, _⟩
  congr 1
  · rw [hf, hi]
    exact rawOf_readInto hfilled hinit hfit hlen
  · show (rawOf r hlen).filled + UInt64.ofNat bytes.length = UInt64.ofNat (r.filled + bytes.length)
    rw [UInt64.ofNat_add]
    rfl
end ReadFuture

/-! ### Whole runs -/

/-- A buffer as `new` or `uninit` makes it. -/
inductive Fresh : RawReadBuf → Prop
  | new (buf : List UInt8) (h : buf.length < 2 ^ 63) : Fresh (.new buf h)
  | uninit (buf : List (Option UInt8)) (h : buf.length < 2 ^ 63) : Fresh (.uninit buf h)

theorem Fresh.filled_eq (h : Fresh b) : b.filled = 0 := by
  cases h <;> rfl

theorem Fresh.ordered (h : Fresh b) : Ordered b := by
  cases h with
  | new buf hlen =>
      refine ⟨Nat.zero_le _, ?_⟩
      show (UInt64.ofNat buf.length).toNat ≤ (buf.map some).length
      exact Nat.le_of_eq (by rw [toNat_slice ⟨buf, hlen⟩, List.length_map])
  | uninit buf hlen => exact ⟨Nat.le_refl _, Nat.zero_le _⟩

/-- A fresh buffer counts only bytes that it has as initialized. -/
theorem Fresh.initializedBytes (h : Fresh b) : InitializedBytes b := by
  cases h with
  | new buf hlen =>
      intro i hi
      have hlt : i < (UInt64.ofNat buf.length).toNat := hi
      rw [toNat_slice ⟨buf, hlen⟩] at hlt
      refine ⟨buf[i], ?_⟩
      show (buf.map some)[i]? = _
      rw [List.getElem?_map, List.getElem?_eq_getElem hlt]
      rfl
  | uninit buf hlen => exact fun i hi => absurd hi (Nat.not_lt_zero i)

theorem filled_run (h : Ordered b) :
    (ReadBufCall.filled.exec checks).run b = .ok (.slice (filledBytes b)) b := by
  simp only [ReadBufCall.exec, filledSlice, EStateM.run_bind, EStateM.run_get]
  rw [slice_run (Nat.zero_le _) h.filled_le_length]
  rfl

/-- The filled part has no uninitialized byte. -/
theorem exists_filledBytes_eq (h : Ordered b) (hbytes : InitializedBytes b) :
    ∃ bytes : List UInt8, filledBytes b = bytes.map some := by
  have hsome : ∀ byte ∈ filledBytes b, byte.isSome = true := by
    intro byte hmem
    obtain ⟨i, hi⟩ := List.mem_iff_getElem?.mp hmem
    rw [filledBytes, List.getElem?_take] at hi
    split at hi
    · rename_i hlt
      obtain ⟨value, hvalue⟩ := hbytes i (Nat.lt_of_lt_of_le hlt h.filled_le)
      rw [hvalue] at hi
      cases hi
      rfl
    · cases hi
  exact ⟨(filledBytes b).attach.map fun byte => byte.1.get (hsome byte.1 byte.2), by simp⟩

/-- For a buffer made by `new` or `uninit` and every sequence of calls of its safe methods, also
after panics, in which `advance_filled` does not go beyond the initialised bytes and nothing
uninitialised is written over them through `unfilled_mut`:

* `filled ≤ initialized ≤ capacity`;
* a call that panics leaves the buffer as it was;
* `filled` shows initialised bytes only;
* after a `clear`, or from the start on, `filled` shows the slices that `put_slice` has put, one
  after the other, as long as `filled` is not moved or written in another way. -/
theorem read_buf_keeps_counters (checks : Bool) {start b : RawReadBuf} (hstart : Fresh start)
    (hrun : Reaches (RawReadBuf.step checks) WithinInitialized start b) :
    (b.filled ≤ b.initialized ∧ b.initialized.toNat ≤ b.buf.length) ∧
    (∀ call e b', (ReadBufCall.exec checks call).run b = .error e b' → b' = b) ∧
    (∃ bytes : List UInt8,
      (ReadBufCall.filled.exec checks).run b = .ok (.slice (bytes.map some)) b) ∧
    ∀ empty, (empty = start ∨ (ReadBufCall.clear.exec checks).run b = .ok .unit empty) →
      ∀ calls, (∀ call ∈ calls, keepsFilled call = true) →
        (ReadBufCall.filled.exec checks).run (runCalls checks empty calls) =
          .ok (.slice ((putBytes checks empty calls).map some)) (runCalls checks empty calls) := by
  have hinv : Ordered b ∧ InitializedBytes b := by
    refine hrun.invariant (I := fun b => Ordered b ∧ InitializedBytes b)
      ⟨hstart.ordered, hstart.initializedBytes⟩ fun b call b' hb hguard hstep => ?_
    cases hstep
    have hout := exec_outcome checks hb.1 call
    exact ⟨hout.ordered hb.1 fun _ => hguard, hout.initializedBytes hb.1 hb.2 hguard⟩
  obtain ⟨hordered, hbytes⟩ := hinv
  refine ⟨⟨UInt64.le_iff_toNat_le.mpr hordered.filled_le, hordered.initialized_le⟩, ?_, ?_, ?_⟩
  · intro call e b' herror
    have hout := exec_outcome checks hordered call
    rw [herror] at hout
    exact hout.error
  · obtain ⟨bytes, heq⟩ := exists_filledBytes_eq hordered hbytes
    exact ⟨bytes, by rw [filled_run hordered, heq]⟩
  · intro empty hempty calls hkeeps
    have hzero : Ordered empty ∧ empty.filled = 0 := by
      rcases hempty with rfl | hclear
      · exact ⟨hstart.ordered, hstart.filled_eq⟩
      · cases hclear
        exact ⟨⟨Nat.zero_le _, hordered.initialized_le⟩, rfl⟩
    obtain ⟨hordered', heq⟩ := runCalls_filledBytes checks calls hzero.1 hkeeps
    have hnil : filledBytes empty = [] := by
      rw [filledBytes, hzero.2]
      rfl
    rw [filled_run hordered', heq, hnil, List.nil_append]

/-- A slice is put into uninitialised memory, and after a `clear` its byte is filled again by
`advance_filled`. -/
theorem read_buf_keeps_counters_put :
    ∃ b : RawReadBuf,
      Reaches (RawReadBuf.step true) WithinInitialized (.uninit [none, none] (by decide)) b ∧
      b.buf = [some 7, none] ∧ b.filled = 1 ∧ b.filled ≤ b.initialized := by
  have hput : RawReadBuf.step true (.uninit [none, none] (by decide))
      (.putSlice ⟨[7], by decide⟩) = some ⟨[some 7, none], 1, 1, by decide⟩ := rfl
  have hclear : RawReadBuf.step true ⟨[some 7, none], 1, 1, by decide⟩ .clear =
      some ⟨[some 7, none], 0, 1, by decide⟩ := rfl
  have hadvance : RawReadBuf.step true ⟨[some 7, none], 0, 1, by decide⟩ (.advanceFilled 1) =
      some ⟨[some 7, none], 1, 1, by decide⟩ := rfl
  have hrun : Reaches (RawReadBuf.step true) WithinInitialized (.uninit [none, none] (by decide))
      ⟨[some 7, none], 1, 1, by decide⟩ :=
    ((Reaches.refl.tail (.putSlice ⟨[7], by decide⟩) trivial hput).tail .clear trivial
      hclear).tail (.advanceFilled 1) (fun _ => by decide) hadvance
  exact ⟨_, hrun, rfl, rfl, (read_buf_keeps_counters true (.uninit _ _) hrun).1.1⟩

/-- `advance_filled` goes beyond the initialised bytes, and `filled` shows a byte that is not
initialised. -/
theorem advance_filled_exposes :
    ∃ b : RawReadBuf, b.initialized < b.filled ∧ ∀ checks : Bool,
      ((ReadBufCall.advanceFilled 1).exec checks).run (.uninit [none] (by decide)) = .ok .unit b ∧
      (ReadBufCall.filled.exec checks).run b = .ok (.slice [none]) b :=
  ⟨⟨[none], 1, 0, by decide⟩, by decide, fun _ => ⟨rfl, rfl⟩⟩

/-- The slice of `unfilled_mut` lets its caller take the initialised bytes back. -/
example (checks : Bool) :
    filledBytes (runCalls checks (.new [7] (by decide))
      [.unfilledMut fun _ => some none, .setFilled 1]) = [none] :=
  rfl

end Kyron.Proofs.Io
