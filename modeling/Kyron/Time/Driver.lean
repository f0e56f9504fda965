import Kyron.Time.Wheel

/-!
# `Kyron.Time.Driver`: the timer wheel of five levels

The model of `Inner` in `time/mod.rs`: registration, processing and the search for the next
timer to expire. Times are milliseconds since the start of the driver.

The nodes come from a `FixedSizePoolAllocator` of iceoryx2, which is not part of the
repository. `NodePool` takes it as a parameter, and `NodePool.Lawful` states what the driver
relies on: an allocation answers an address that is not in use, and a deallocation frees
exactly its address.

`process_internal` is a loop. `processLoop` runs at most `fuel` iterations and answers
`none` when it has not finished by then. `ProcessInternal` is the unbounded loop: it relates
a call to its result when some amount of fuel is enough.
-/

set_option autoImplicit false

namespace Kyron.Time

/-- `MAX_TIMEOUT_TIME`: the longest timeout that can be registered. -/
def maxTimeoutTime : UInt64 := slotsCnt * 16777216

/-- `MAX_LEVELS`: the levels of the wheel. -/
def maxLevels : Nat := 5

/-- A point of the clock, in nanoseconds. -/
abbrev Instant := Nat

/-- The node allocator: a state type `P` with its two operations. -/
structure NodePool (P : Type) where
  allocate : P → Option (NodeAddr × P)
  deallocate : P → NodeAddr → P

/-- What the driver relies on in the allocator. `live p` holds for the addresses that are
handed out in state `p`. -/
structure NodePool.Lawful {P : Type} (pool : NodePool P) (live : P → NodeAddr → Prop) : Prop where
  allocate_fresh : ∀ p a p', pool.allocate p = some (a, p') → ¬ live p a
  allocate_live : ∀ p a p', pool.allocate p = some (a, p') →
    ∀ b, live p' b ↔ b = a ∨ live p b
  deallocate_live : ∀ p a, live p a →
    ∀ b, live (pool.deallocate p a) b ↔ b ≠ a ∧ live p b

/-- The simplest allocator of `cap` nodes: the state lists the addresses in use, and an
allocation answers the lowest free one. -/
def fixedPool (cap : Nat) : NodePool (List NodeAddr) where
  allocate := fun used =>
    ((List.range cap).find? fun a => !used.contains a).map fun a => (a, a :: used)
  deallocate := fun used a => used.filter (· != a)

/-- `Inner`: the five levels, the node pool, the last processed time and the start of the
clock. -/
structure Inner (P W : Type) where
  levels : Fin maxLevels → TimeWheel W
  pool : P
  lastCheckTime : UInt64
  startTime : Instant

/-- `compute_level_for_timer`: the level is the base-64 digit of the highest bit in which the
two times differ. `leading_zeros` is `BitVec.clz`. -/
def computeLevelForTimer (lastCheckTime expireAt : UInt64) : Nat :=
  let slotMask := ((1 : UInt64) <<< 6) - 1
  let masked := (lastCheckTime ^^^ expireAt) ||| slotMask
  let leadingZeros := masked.toBitVec.clz.toNat
  let significant := 63 - leadingZeros
  significant / 6

namespace Inner

variable {P W : Type}

/-- `Inner::new`: five empty levels at time 0. -/
def new (p : P) (startTime : Instant) : Inner P W where
  levels := fun i => TimeWheel.new i
  pool := p
  lastCheckTime := 0
  startTime := startTime

/-- `instant_into_u64`: whole milliseconds since the start, saturating at both ends. -/
def instantIntoU64 (s : Inner P W) (now : Instant) : UInt64 :=
  UInt64.ofNat (min ((now - s.startTime) / 1000000) (2 ^ 64 - 1))

/-- `set_last_check_time`, with its debug assertion. -/
def setLastCheckTime (s : Inner P W) (now : UInt64) : Except Panic (Inner P W) :=
  if s.lastCheckTime ≤ now then
    .ok { s with lastCheckTime := now }
  else
    .error .timeWentBack

/-- The search of `find_next_expiring` over a list of levels, lowest first. -/
def firstExpiration (now : UInt64) : List (TimeWheel W) → Except Panic (Option ExpireInfo)
  | [] => .ok none
  | w :: ws => do
      match ← w.nextExpiration now with
      | some info => .ok (some info)
      | none => firstExpiration now ws

/-- `find_next_expiring`: the next expiration of the lowest level in use. -/
def findNextExpiring (s : Inner P W) (now : UInt64) : Except Panic (Option ExpireInfo) :=
  firstExpiration now (List.ofFn s.levels)

/-- `next_process_time`: the instant of the earliest deadline, and how long after the last
processed time it is. The slot that expires next is searched for its lowest deadline. -/
def nextProcessTime (s : Inner P W) : Except Panic (Option (Instant × UInt64)) := do
  match ← s.findNextExpiring s.lastCheckTime with
  | none => .ok none
  | some info =>
      if h : info.level < maxLevels then
        let preciseDeadline := (s.levels ⟨info.level, h⟩).nextExpirationInSlot info.slotId
        let deadline := preciseDeadline.getD info.deadline
        if s.lastCheckTime ≤ deadline then
          .ok (some (s.startTime + deadline.toNat * 1000000, deadline - s.lastCheckTime))
        else
          .error .timeToNextUnderflow
      else
        .error .levelOutOfBounds

/-- `self.levels[level].register_wakeup_on_timeout(..)`, which panics past the last level. -/
def registerAt (s : Inner P W) (level : Nat) (e : TimeEntry W) : Except Panic (Inner P W) :=
  if h : level < maxLevels then
    .ok { s with
        levels := Function.update s.levels ⟨level, h⟩
          ((s.levels ⟨level, h⟩).registerWakeupOnTimeout e.data.expireAt e) }
  else
    .error .levelOutOfBounds

/-- The loop of `process_expired` over the chain of the acquired slot. A node that is due is
woken and freed. Every other node moves to the level that its deadline asks for now. The
answer lists the woken timers in the order of their `wake` calls. -/
def processEntries (pool : NodePool P) (deadline : UInt64) :
    List (TimeEntry W) → Inner P W → Except Panic (Inner P W × List (TimeoutData W))
  | [], s => .ok (s, [])
  | e :: es, s => do
      if e.data.expireAt ≤ deadline then
        let (s', woken) ← processEntries pool deadline es
          { s with pool := pool.deallocate s.pool e.addr }
        .ok (s', e.data :: woken)
      else
        let s' ← s.registerAt (computeLevelForTimer deadline e.data.expireAt) e
        processEntries pool deadline es s'

/-- `process_expired`: acquires the slot and goes over its chain. -/
def processExpired (pool : NodePool P) (s : Inner P W) (info : ExpireInfo) :
    Except Panic (Inner P W × List (TimeoutData W)) :=
  if h : info.level < maxLevels then do
    let (entries, wheel) ← (s.levels ⟨info.level, h⟩).aquireSlot info
    processEntries pool info.deadline entries
      { s with levels := Function.update s.levels ⟨info.level, h⟩ wheel }
  else
    .error .levelOutOfBounds

/-- One iteration of the loop of `process_internal`: the new state, the timers woken and
whether the loop goes on. -/
def processStep (pool : NodePool P) (s : Inner P W) (now : UInt64) :
    Except Panic (Inner P W × List (TimeoutData W) × Bool) := do
  match ← s.findNextExpiring s.lastCheckTime with
  | some info =>
      if info.deadline ≤ now then
        let (s', woken) ← s.processExpired pool info
        let s'' ← s'.setLastCheckTime info.deadline
        .ok (s'', woken, true)
      else
        let s' ← s.setLastCheckTime now
        .ok (s', [], false)
  | none =>
      let s' ← s.setLastCheckTime now
      .ok (s', [], false)

/-- The loop of `process_internal`, cut off after `fuel` iterations. -/
def processLoop (pool : NodePool P) (now : UInt64) :
    Nat → Inner P W → Option (Except Panic (Inner P W × List (TimeoutData W)))
  | 0, _ => none
  | fuel + 1, s =>
      match s.processStep pool now with
      | .error e => some (.error e)
      | .ok (s', woken, false) => some (.ok (s', woken))
      | .ok (s', woken, true) =>
          (processLoop pool now fuel s').map fun r => r.map fun (s'', later) =>
            (s'', woken ++ later)

/-- `process_internal` with at most `fuel` iterations of its loop. -/
def processInternal (pool : NodePool P) (fuel : Nat) (s : Inner P W) (now : UInt64) :
    Option (Except Panic (Inner P W × List (TimeoutData W))) :=
  if s.lastCheckTime ≤ now then
    processLoop pool now fuel s
  else
    some (.error .timeInPast)

/-- A call `process_internal(now)` in state `s` ends with the result `r`. -/
def ProcessInternal (pool : NodePool P) (s : Inner P W) (now : UInt64)
    (r : Except Panic (Inner P W × List (TimeoutData W))) : Prop :=
  ∃ fuel, s.processInternal pool fuel now = some r

/-- `register_timeout_internal`: takes a node from the pool and files it under the level of
its deadline. -/
def registerTimeoutInternal (pool : NodePool P) (s : Inner P W) (expireAt : UInt64) (waker : W) :
    Except Panic (Inner P W × Except CommonErrors Unit) :=
  match pool.allocate s.pool with
  | none => .ok (s, .error .noSpaceLeft)
  | some (addr, p) => do
      let level := computeLevelForTimer s.lastCheckTime expireAt
      let s' ← { s with pool := p }.registerAt level { addr := addr, data := { waker, expireAt } }
      .ok (s', .ok ())

/-- The two checks of `register_timeout` on the deadline in milliseconds: not before the last
processed time, and not more than `MAX_TIMEOUT_TIME` after it. -/
def acceptsTimeout (s : Inner P W) (expireAt : UInt64) : Except CommonErrors Unit :=
  if expireAt < s.lastCheckTime then
    .error .alreadyDone
  else if maxTimeoutTime < expireAt - s.lastCheckTime then
    .error .wrongArgs
  else
    .ok ()

/-- `register_timeout`: asserts that the instant is not before the start, checks the deadline
and registers it. -/
def registerTimeout (pool : NodePool P) (s : Inner P W) (expireAt : Instant) (waker : W) :
    Except Panic (Inner P W × Except CommonErrors Unit) :=
  if s.startTime ≤ expireAt then
    match s.acceptsTimeout (s.instantIntoU64 expireAt) with
    | .error e => .ok (s, .error e)
    | .ok () => s.registerTimeoutInternal pool (s.instantIntoU64 expireAt) waker
  else
    .error .registerBeforeStart

end Inner

end Kyron.Time
