import Mathlib.Algebra.Group.Nat.Defs

/-!
# `Kyron.Io.RawReadBuf`: a read buffer whose memory may be uninitialised

The model of `ReadBuf` in `io/read_buf.rs` with all its safe methods. A byte that is not initialised
is `none`. A method that panics keeps what it has written before, so the methods are programs with a
state and an error. The flag `checks` says whether plain `+` and `-` on `usize` are checked; without
the checks they wrap around.

A method that returns `&mut [u8]` is given what its caller then writes into the slice: `some byte`
for the places that are written. The slice of `unfilled_mut` is `&mut [MaybeUninit<u8>]`, so there
the caller can also write a byte that is not initialised.
-/

set_option autoImplicit false

namespace Kyron.Io

inductive ReadBufPanic
  /-- `assert!`. -/
  | assertion (message : String)
  /-- `expect`. -/
  | expected (message : String)
  /-- The range of a slice is not in the buffer. -/
  | sliceIndex
  /-- A checked `+` or `-`. -/
  | arithmetic
  deriving DecidableEq, Repr

/-- `ReadBuf`. A slice has less than 2^63 bytes. -/
structure RawReadBuf where
  buf : List (Option UInt8)
  filled : UInt64
  initialized : UInt64
  len_lt : buf.length < 2 ^ 63
  deriving DecidableEq, Repr

/-- The slice that is given to `put_slice`. -/
abbrev PutBuf := { bytes : List UInt8 // bytes.length < 2 ^ 63 }

/-- What a caller writes into a slice: at each place a byte or nothing. -/
abbrev SliceWrite := Nat → Option UInt8

abbrev ReadBufM := EStateM ReadBufPanic RawReadBuf

namespace RawReadBuf

/-- `ReadBuf::new`. -/
def new (buf : List UInt8) (h : buf.length < 2 ^ 63) : RawReadBuf where
  buf := buf.map some
  filled := 0
  initialized := UInt64.ofNat buf.length
  len_lt := by simpa using h

/-- `ReadBuf::uninit`. -/
def uninit (buf : List (Option UInt8)) (h : buf.length < 2 ^ 63) : RawReadBuf where
  buf := buf
  filled := 0
  initialized := 0
  len_lt := h

/-- The bytes from `start` to `stop` are written where `new` says so. -/
def overwrite (b : RawReadBuf) (start stop : Nat) (new : Nat → Option (Option UInt8)) :
    RawReadBuf :=
  { b with
    buf := b.buf.mapIdx fun i old =>
      if start ≤ i ∧ i < stop then (new (i - start)).getD old else old
    len_lt := by simpa using b.len_lt }

/-! ### Arithmetic, assertions and slices -/

def addUsize (checks : Bool) (x y : UInt64) : ReadBufM UInt64 :=
  if checks ∧ 2 ^ 64 ≤ x.toNat + y.toNat then throw .arithmetic else pure (x + y)

def subUsize (checks : Bool) (x y : UInt64) : ReadBufM UInt64 :=
  if checks ∧ x < y then throw .arithmetic else pure (x - y)

def assertThat (cond : Bool) (message : String) : ReadBufM Unit :=
  if cond then pure () else throw (.assertion message)

/-- `self.buf[start..stop]`. -/
def slice (start stop : UInt64) : ReadBufM (List (Option UInt8)) := do
  let b ← get
  if start ≤ stop ∧ stop.toNat ≤ b.buf.length then
    return (b.buf.take stop.toNat).drop start.toNat
  else
    throw .sliceIndex

/-- `self.buf[start..stop]` for a caller that then writes into it. -/
def sliceMut (start stop : UInt64) (write : Nat → Option (Option UInt8)) :
    ReadBufM (List (Option UInt8)) := do
  let bytes ← slice start stop
  modify fun b => b.overwrite start.toNat stop.toNat write
  return bytes

/-! ### The methods -/

def capacity : ReadBufM UInt64 := return UInt64.ofNat (← get).buf.length

def remaining (checks : Bool) : ReadBufM UInt64 := do
  subUsize checks (← capacity) (← get).filled

def clear : ReadBufM Unit := modify fun b => { b with filled := 0 }

def unfilledMut (write : Nat → Option (Option UInt8)) : ReadBufM (List (Option UInt8)) := do
  sliceMut (← get).filled (← capacity) write

/-- `filled`. -/
def filledSlice : ReadBufM (List (Option UInt8)) := do slice 0 (← get).filled

def filledMut (write : SliceWrite) : ReadBufM (List (Option UInt8)) := do
  sliceMut 0 (← get).filled fun j => (write j).map some

/-- `initialized`. -/
def initializedSlice : ReadBufM (List (Option UInt8)) := do slice 0 (← get).initialized

def initializedMut (write : SliceWrite) : ReadBufM (List (Option UInt8)) := do
  sliceMut 0 (← get).initialized fun j => (write j).map some

def setFilled (n : UInt64) : ReadBufM Unit := do
  assertThat (n ≤ (← get).initialized) "Cannot set filled more than initialized"
  modify fun b => { b with filled := n }

/-- `advance_filled`. The sum is checked for an overflow and for nothing else. -/
def advanceFilled (n : UInt64) : ReadBufM Unit := do
  let b ← get
  if b.filled.toNat + n.toNat < 2 ^ 64 then
    set { b with filled := b.filled + n }
  else
    throw (.expected "Overflow in advance_filled")

def putSlice (checks : Bool) (buf : PutBuf) : ReadBufM Unit := do
  let len := UInt64.ofNat buf.val.length
  assertThat (len ≤ (← remaining checks)) "Cannot put slice more than capacity"
  let stop ← addUsize checks (← get).filled len
  let _ ← sliceMut (← get).filled stop fun j => (buf.val[j]?).map some
  let filled ← addUsize checks (← get).filled len
  modify fun b => { b with filled }
  let b ← get
  if b.initialized < b.filled then set { b with initialized := b.filled }

def initUnfilled (checks : Bool) (size : UInt64) : ReadBufM Unit := do
  assertThat (size ≤ (← remaining checks)) "Cannot fill unfilled more than capacity"
  let stop ← addUsize checks (← get).filled size
  let _ ← sliceMut (← get).filled stop fun j => if j < size.toNat then some (some 0) else none
  let b ← get
  if b.initialized < stop then set { b with initialized := stop }

def initializeUnfilled (checks : Bool) (write : SliceWrite) : ReadBufM (List (Option UInt8)) := do
  initUnfilled checks (← remaining checks)
  sliceMut (← get).filled (← capacity) fun j => (write j).map some

def initializedUnfilled : ReadBufM (List (Option UInt8)) := do
  slice (← get).filled (← get).initialized

def initializedUnfilledMut (write : SliceWrite) : ReadBufM (List (Option UInt8)) := do
  sliceMut (← get).filled (← get).initialized fun j => (write j).map some

end RawReadBuf

/-- The calls of the safe methods. -/
inductive ReadBufCall
  | capacity
  | remaining
  | clear
  | unfilledMut (write : Nat → Option (Option UInt8))
  | filled
  | filledMut (write : SliceWrite)
  | initialized
  | initializedMut (write : SliceWrite)
  | setFilled (n : UInt64)
  | advanceFilled (n : UInt64)
  | putSlice (buf : PutBuf)
  | initializeUnfilled (write : SliceWrite)
  | initializedUnfilled
  | initializedUnfilledMut (write : SliceWrite)

/-- What a call returns. A slice is what it shows of the buffer when it is returned. -/
inductive ReadBufAnswer
  | unit
  | number (n : UInt64)
  | slice (bytes : List (Option UInt8))
  deriving DecidableEq, Repr

namespace ReadBufCall

open RawReadBuf

def exec (checks : Bool) : ReadBufCall → ReadBufM ReadBufAnswer
  | .capacity => return .number (← RawReadBuf.capacity)
  | .remaining => return .number (← RawReadBuf.remaining checks)
  | .clear => do
      RawReadBuf.clear
      return .unit
  | .unfilledMut write => return .slice (← RawReadBuf.unfilledMut write)
  | .filled => return .slice (← filledSlice)
  | .filledMut write => return .slice (← RawReadBuf.filledMut write)
  | .initialized => return .slice (← initializedSlice)
  | .initializedMut write => return .slice (← RawReadBuf.initializedMut write)
  | .setFilled n => do
      RawReadBuf.setFilled n
      return .unit
  | .advanceFilled n => do
      RawReadBuf.advanceFilled n
      return .unit
  | .putSlice buf => do
      RawReadBuf.putSlice checks buf
      return .unit
  | .initializeUnfilled write => return .slice (← RawReadBuf.initializeUnfilled checks write)
  | .initializedUnfilled => return .slice (← RawReadBuf.initializedUnfilled)
  | .initializedUnfilledMut write => return .slice (← RawReadBuf.initializedUnfilledMut write)

end ReadBufCall

/-- The buffer after a call, which may have panicked. -/
def bufferAfter {α : Type} : EStateM.Result ReadBufPanic RawReadBuf α → RawReadBuf
  | .ok _ b => b
  | .error _ b => b

/-- The next call on a buffer. -/
def RawReadBuf.step (checks : Bool) (b : RawReadBuf) (call : ReadBufCall) : Option RawReadBuf :=
  some (bufferAfter ((call.exec checks).run b))

end Kyron.Io
