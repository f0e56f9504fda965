import Mathlib.Algebra.Group.Nat.Defs
import Kyron.Basic

/-!
# `Kyron.Time.Wheel`: one level of the timer wheel

The model of `time/wheel.rs`. A `TimeWheel` has 64 slots and a bitmap of the slots in use.
Level `l` covers `64 ^ (l + 1)` milliseconds, and each of its slots covers `64 ^ l`.

A slot of the source is the head of a chain of `TimeEntry` nodes, linked through `next`. The
chain is only ever pushed at the head and taken as a whole, so the model keeps it as the
list of its nodes, head first. A node is named by its address in the pool.

`u64` values are `UInt64` and the bitmap is a `BitVec 64`. Additions that the source does
with `+` are checked: an overflow is a `Panic`, as with overflow checks on. The proofs show
that none of the panics is reached, so the results hold without overflow checks too.
-/

set_option autoImplicit false

namespace Kyron.Time

/-- `SLOTS_CNT`: the slots of one level. -/
def slotsCnt : UInt64 := 64

/-- What unwinds the thread in `time/mod.rs` and `time/wheel.rs`. -/
inductive Panic
  /-- `process_internal` with a time before the last processed one. -/
  | timeInPast
  /-- `assert!(slot_deadline >= now)` in `next_expiration`. -/
  | slotDeadlineInPast
  /-- `assert!(info.level == self.level)` in `aquire_slot`. -/
  | differentLevel
  /-- The `u32` addition in `next_occupied_slot`. -/
  | slotOverflow
  /-- The `u64` addition in `next_expiration`. -/
  | deadlineOverflow
  /-- `self.levels[level]` past the last level. -/
  | levelOutOfBounds
  /-- The `debug_assert!` of `set_last_check_time`. -/
  | timeWentBack
  /-- `register_timeout` with an instant before the start of the driver. -/
  | registerBeforeStart
  /-- The `u64` subtraction in `next_process_time`. -/
  | timeToNextUnderflow
  deriving DecidableEq, Repr

/-- The address of a `TimeEntry` node in the pool. -/
abbrev NodeAddr := Nat

/-- `TimeoutData`: the waker to call and the millisecond to call it at. -/
structure TimeoutData (W : Type) where
  waker : W
  expireAt : UInt64
  deriving DecidableEq, Repr

/-- `TimeEntry`: a pool node that holds a `TimeoutData`. The `next` pointer is the position
of the node in the list of its slot. -/
structure TimeEntry (W : Type) where
  addr : NodeAddr
  data : TimeoutData W
  deriving DecidableEq, Repr

/-- `ExpireInfo`: which slot of which level expires next, and when. -/
structure ExpireInfo where
  level : Nat
  slotId : Fin 64
  deadline : UInt64
  deriving DecidableEq, Repr

/-- `TimeWheel`: one level of the wheel. Bit `i` of `occupiedSlots` stands for slot `i`. -/
structure TimeWheel (W : Type) where
  slots : Fin 64 → List (TimeEntry W)
  occupiedSlots : BitVec 64
  level : Nat

namespace TimeWheel

variable {W : Type}

/-- `TimeWheel::new`: all slots empty. -/
def new (level : Nat) : TimeWheel W where
  slots := fun _ => []
  occupiedSlots := 0
  level := level

/-- `slot_range`: how many milliseconds one slot covers. -/
def slotRange (w : TimeWheel W) : UInt64 := slotsCnt ^ w.level

/-- `level_range`: how many milliseconds the whole level covers. -/
def levelRange (w : TimeWheel W) : UInt64 := w.slotRange * slotsCnt

/-- `next_occupied_slot`: the first slot in use at or after the slot of `now`, wrapping
around. The bitmap is rotated so that the slot of `now` is bit 0. The slot number of `now`
is cut to 32 bits before the trailing zeros are added to it. -/
def nextOccupiedSlot (w : TimeWheel W) (now : UInt64) : Except Panic (Option (Fin 64)) :=
  if w.occupiedSlots = 0 then
    .ok none
  else
    let currSlot := (now / w.slotRange).toUInt32.toNat
    let x := w.occupiedSlots.rotateRight currSlot
    if x.ctz.toNat + currSlot < 2 ^ 32 then
      .ok (some (Fin.ofNat 64 (x.ctz.toNat + currSlot)))
    else
      .error .slotOverflow

/-- `next_expiration`: the next slot in use and the time at which it begins. -/
def nextExpiration (w : TimeWheel W) (now : UInt64) : Except Panic (Option ExpireInfo) := do
  match ← w.nextOccupiedSlot now with
  | none => .ok none
  | some slot =>
      let wheelStart := now &&& ~~~(w.levelRange - 1)
      let offset := UInt64.ofNat slot * w.slotRange
      if wheelStart.toNat + offset.toNat < 2 ^ 64 then
        let slotDeadline := wheelStart + offset
        if now ≤ slotDeadline then
          .ok (some { level := w.level, slotId := slot, deadline := slotDeadline })
        else
          .error .slotDeadlineInPast
      else
        .error .deadlineOverflow

/-- `next_expiration_in_slot`: the lowest `expire_at` of a slot, found by walking its chain
from `u64::MAX` down. -/
def nextExpirationInSlot (w : TimeWheel W) (slotId : Fin 64) : Option UInt64 :=
  match w.slots slotId with
  | [] => none
  | entries =>
      some (entries.foldl (fun lowest e => min e.data.expireAt lowest) (UInt64.ofNat (2 ^ 64 - 1)))

/-- `aquire_slot`: empties a slot, clears its bit and hands out its chain. -/
def aquireSlot (w : TimeWheel W) (info : ExpireInfo) :
    Except Panic (List (TimeEntry W) × TimeWheel W) :=
  if info.level = w.level then
    .ok (w.slots info.slotId,
      { w with
          occupiedSlots := w.occupiedSlots &&& ~~~(BitVec.twoPow 64 info.slotId)
          slots := Function.update w.slots info.slotId [] })
  else
    .error .differentLevel

/-- `register_wakeup_on_timeout`: puts a node at the head of the chain of its slot and sets
the bit of that slot. -/
def registerWakeupOnTimeout (w : TimeWheel W) (expireAt : UInt64) (e : TimeEntry W) :
    TimeWheel W :=
  let slotId := Fin.ofNat 64 (expireAt / w.slotRange).toNat
  { w with
      occupiedSlots := w.occupiedSlots ||| BitVec.twoPow 64 slotId
      slots := Function.update w.slots slotId (e :: w.slots slotId) }

end TimeWheel

end Kyron.Time
