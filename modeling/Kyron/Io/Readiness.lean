/-!
# `Kyron.Io.Readiness`: readiness words and interests

The model of `ReadinessState` in `io/async_registration.rs` and of `IoEventInterest` in
`mio/types.rs`. A readiness word has the state bits in its low half and a tick in its high
half. Every report of the driver raises the tick, and a clear takes effect only when it names
the tick of the word.
-/

set_option autoImplicit false

namespace Kyron.Io

/-- `IoEventInterest`. -/
structure IoEventInterest where
  bits : UInt8
  deriving DecidableEq, Repr

namespace IoEventInterest

/-- `IoEventInterest::READABLE`. -/
def readable : IoEventInterest := ⟨0b00000001⟩

/-- `IoEventInterest::WRITABLE`. -/
def writable : IoEventInterest := ⟨0b00000010⟩

def isReadable (i : IoEventInterest) : Bool := (i.bits &&& readable.bits) != 0

def isWritable (i : IoEventInterest) : Bool := (i.bits &&& writable.bits) != 0

end IoEventInterest

/-- `READINESS_STATE_READABLE`. -/
def readinessStateReadable : UInt32 := 0b00000001

/-- `READINESS_STATE_WRITABLE`. -/
def readinessStateWritable : UInt32 := 0b00000010

/-- `READINESS_STATE_MASK`. -/
def readinessStateMask : UInt32 := 0x0000FFFF

/-- `READINESS_TICK_MASK`. -/
def readinessTickMask : UInt32 := 0xFFFF0000

/-- `READINESS_TICK_SHIFT`: the number of ones in the tick mask. -/
def readinessTickShift : UInt32 := 16

/-- `ReadinessState`. -/
structure ReadinessState where
  bits : UInt32
  deriving DecidableEq, Repr

namespace ReadinessState

def fromComponents (state tick : UInt16) : ReadinessState :=
  ⟨(tick.toUInt32 <<< readinessTickShift) ||| state.toUInt32⟩

def extractState (r : ReadinessState) : UInt16 := (r.bits &&& readinessStateMask).toUInt16

def extractTick (r : ReadinessState) : UInt16 :=
  ((r.bits &&& readinessTickMask) >>> readinessTickShift).toUInt16

def tick (r : ReadinessState) : UInt16 := r.extractTick

def isReadable (r : ReadinessState) : Bool := (r.bits &&& readinessStateReadable) != 0

def isWritable (r : ReadinessState) : Bool := (r.bits &&& readinessStateWritable) != 0

/-- Removes the states of the mask. -/
def clear (r mask : ReadinessState) : ReadinessState :=
  fromComponents (r.extractState &&& ~~~mask.extractState) r.extractTick

/-- Adds the states of the other word and keeps the tick. -/
def union (r other : ReadinessState) : ReadinessState :=
  fromComponents (r.extractState ||| other.extractState) r.extractTick

/-- The common states, or none if there are none. -/
def intersection (r other : ReadinessState) : Option ReadinessState :=
  let val := r.extractState &&& other.extractState
  if val = 0 then none else some (fromComponents val r.extractTick)

def incrementTick (r : ReadinessState) : ReadinessState :=
  fromComponents r.extractState (r.tick + 1)

/-- The conversion from an interest. -/
def ofInterest (interest : IoEventInterest) : ReadinessState :=
  let state : UInt32 := if interest.isReadable then readinessStateReadable else 0
  let state := if interest.isWritable then state ||| readinessStateWritable else state
  fromComponents state.toUInt16 0

/-- The update of `mark_state`: the tick goes up and the states are added. The answer is the
new word. -/
def markState (current state : ReadinessState) : ReadinessState :=
  current.incrementTick.union state

/-- The update of `clear_readiness`: nothing if the tick is another one or no state of the
interest is set. -/
def clearReadiness (current readiness : ReadinessState) (interest : IoEventInterest) :
    Option ReadinessState :=
  if readiness.tick ≠ current.tick then none
  else
    match current.intersection (ofInterest interest) with
    | none => none
    | some _ => some (current.clear (ofInterest interest))

/-- `is_ready`: the states of the interest that are set in the word. -/
def isReady (current : ReadinessState) (interest : IoEventInterest) : Option ReadinessState :=
  current.intersection (ofInterest interest)

end ReadinessState

end Kyron.Io
