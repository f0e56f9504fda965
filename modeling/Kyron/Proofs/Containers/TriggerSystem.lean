import Kyron.Containers.TriggerQueue
import Kyron.Containers.TriggerSystem
import Kyron.Lib.Lock
import Kyron.Lib.Transition
import Kyron.Proofs.Containers.Queue

/-!
# `Kyron.Proofs.Containers.TriggerSystem`: a bounded FIFO that wakes its consumer

What is done to the ring is done with the mutex, so the events have an order. `Replays` says that
the list model of `Kyron.Containers.TriggerQueue` takes the same steps, and the log of the calls
says that each call returns the answer of its own event. A container that `pop_into_vec` gives back
has its first items followed by the values of its pops (`AnswerFilled`).

The flag `state` is set exactly while the consumer is between the two stores around its wait. The
consumer starts to wait with the mutex and an empty ring, so every value that it then misses is
pushed by a thread that finds the flag set. That thread is on its way to `notify_one` until it has
notified.

* `trigger_queue_fifo_wakes`: the order of the values, the answers of `push` and of the timeout, the
  containers of `pop_into_vec`, the `unwrap` after the wait, and the pending notification, in every
  state of every interleaving.
-/

set_option autoImplicit false

namespace Kyron.Proofs.Containers

open Kyron.Containers
open Kyron.Lib
open Function

variable {T C V : Type}

/-! ### Events of the list model -/

/-- The event is possible in the queue and leads to the queue `q'`. -/
def After (q : TriggerQueue V) : TriggerEvent T V → TriggerQueue V → Prop
  | .push _ value ok, q' => q.push value = (q', ok)
  | .pop (some value), q' => q.pop = some (value, q')
  | .pop none, q' => q.pop = none ∧ q' = q
  | .timeout, q' => q.pop = none ∧ q' = q

/-- The events, one after the other, lead from `q` to a queue. -/
inductive Replays (q : TriggerQueue V) : List (TriggerEvent T V) → TriggerQueue V → Prop
  | nil : Replays q [] q
  | concat {es : List (TriggerEvent T V)} {q' q'' : TriggerQueue V} (e : TriggerEvent T V)
      (before : Replays q es q') (next : After q' e q'') : Replays q (es ++ [e]) q''

/-- The values of the pushes that were accepted. -/
def accepted (es : List (TriggerEvent T V)) : List V :=
  es.filterMap fun
    | .push _ value true => some value
    | _ => none

/-- The values that were popped. -/
def popped (es : List (TriggerEvent T V)) : List V :=
  es.filterMap fun
    | .pop value => value
    | _ => none

/-- What goes in comes out in the same order. -/
theorem Replays.popped_append {q q' : TriggerQueue V} {es : List (TriggerEvent T V)}
    (h : Replays q es q') : popped es ++ q'.data = q.data ++ accepted es := by
  -- By induction on the events: a push adds at the right of both sides, a pop moves its value from
  -- the queue to `popped`.
  induction h with
  | nil => simp [popped, accepted]
  | @concat es q' q'' e _ hnext ih =>
      unfold popped accepted at ih ⊢
      rw [List.filterMap_append, List.filterMap_append, ← List.append_assoc q.data, ← ih]
      cases e with
      | push t value ok =>
          simp only [After, TriggerQueue.push] at hnext
          split at hnext <;> cases hnext <;> simp
      | pop value =>
          cases value with
          | none =>
              obtain ⟨-, rfl⟩ := hnext
              simp
          | some value =>
              simp only [After, TriggerQueue.pop] at hnext
              split at hnext
              · cases hnext
              · rename_i hdata
                cases hnext
                simp [hdata]
      | timeout =>
          obtain ⟨-, rfl⟩ := hnext
          simp

/-! ### Events of the ring -/

variable {queue queue' : Queue V} {items : List V} {value : V}

theorem queue_push_true (h : QueueHolds queue items) (hpush : queue.push value = (queue', true)) :
    QueueHolds queue' (items ++ [value]) ∧ queue'.capacity = queue.capacity ∧
      items.length < queue.capacity.toNat := by
  by_cases hroom : items.length < queue.capacity.toNat
  · obtain ⟨m, hm, hholds, hcapacity⟩ := h.push hroom value
    rw [hm] at hpush
    cases hpush
    exact ⟨hholds, hcapacity, hroom⟩
  · rw [h.push_full (not_lt.mp hroom) value] at hpush
    cases hpush

theorem queue_push_false (h : QueueHolds queue items) (hpush : queue.push value = (queue', false)) :
    queue' = queue ∧ items.length = queue.capacity.toNat := by
  by_cases hroom : items.length < queue.capacity.toNat
  · obtain ⟨m, hm, -⟩ := h.push hroom value
    rw [hm] at hpush
    cases hpush
  · rw [h.push_full (not_lt.mp hroom) value] at hpush
    cases hpush
    exact ⟨rfl, le_antisymm h.length_le (not_lt.mp hroom)⟩

theorem queue_pop_some (h : QueueHolds queue items) (hpop : queue.pop = (queue', some value)) :
    ∃ rest, items = value :: rest ∧ QueueHolds queue' rest ∧ queue'.capacity = queue.capacity := by
  cases items with
  | nil =>
      rw [h.pop_nil] at hpop
      cases hpop
  | cons first rest =>
      obtain ⟨m, hm, hholds, hcapacity⟩ := h.pop
      rw [hm] at hpop
      cases hpop
      exact ⟨rest, rfl, hholds, hcapacity⟩

theorem queue_pop_none (h : QueueHolds queue items) (hpop : queue.pop = (queue', none)) :
    items = [] ∧ queue' = queue := by
  cases items with
  | nil =>
      rw [h.pop_nil] at hpop
      cases hpop
      exact ⟨rfl, rfl⟩
  | cons first rest =>
      obtain ⟨m, hm, -⟩ := h.pop
      rw [hm] at hpop
      cases hpop

/-! ### Places -/

/-- The consumer is in a part of its call that has the mutex. -/
def consumerHolds : ConsumerPc C V → Bool
  | .pop | .fill _ _ _ | .falling _ | .check _ | .block _ | .awake _ | .take _ | .unlock _
  | .failed => true
  | _ => false

/-- The thread is in the part of `push` that has the mutex. -/
def pusherHolds : PushPc V → Bool
  | .push _ | .load _ | .dropGuard _ | .unlock _ _ => true
  | _ => false

/-- A party is in a part that has the mutex. -/
def partyInside (s : TriggerSystem T C V) : TriggerParty T → Prop
  | .consumer => consumerHolds s.consumer = true
  | .pusher t => pusherHolds (s.pushers t) = true

/-- The consumer is between the two stores to `state`. -/
def flagOf : ConsumerPc C V → Bool
  | .check _ | .block _ | .wait _ | .relock _ | .awake _ => true
  | _ => false

def waits : ConsumerPc C V → Bool
  | .wait _ => true
  | _ => false

/-- What the consumer has found out about the ring and relies on. -/
def Found (items : List V) : ConsumerPc C V → Prop
  | .block _ | .awake true | .take true => items = []
  | .awake false | .take false => items ≠ []
  | .failed => False
  | _ => True

/-- The thread has pushed a value and has not notified yet. -/
def toNotify : PushPc V → Bool
  | .load _ | .dropGuard _ | .notify _ => true
  | _ => false

/-- The answer of the push that has been decided. -/
def decided : PushPc V → List (V × Bool)
  | .load value | .dropGuard value | .notify value => [(value, true)]
  | .unlock value ret => [(value, ret)]
  | _ => []

/-- The pushes of a thread. -/
def pushesOf [DecidableEq T] (t : T) (es : List (TriggerEvent T V)) : List (V × Bool) :=
  es.filterMap fun
    | .push u value ok => if u = t then some (value, ok) else none
    | _ => none

/-- What the calls of `push` of a thread have returned. -/
def returnsOf [DecidableEq T] (t : T) (returns : List (T × V × Bool)) : List (V × Bool) :=
  returns.filterMap fun r => if r.1 = t then some r.2 else none

/-- What the consumer does to the queue. -/
inductive PopEvent (V : Type)
  | pop (value : Option V)
  | timeout
  deriving DecidableEq, Repr

/-- The events of the consumer. -/
def popsOf (es : List (TriggerEvent T V)) : List (PopEvent V) :=
  es.filterMap fun
    | .pop value => some (.pop value)
    | .timeout => some .timeout
    | .push _ _ _ => none

/-- The events that an answer reports. -/
def reported : PopAnswer C V → List (PopEvent V)
  | .option value => [.pop value]
  | .container _ _ pops => pops.map .pop
  | .value value => [.pop (some value)]
  | .timeout => [.timeout]

/-- The events that the consumer has still to report. -/
def unreported : ConsumerPc C V → List (PopEvent V)
  | .fill _ _ pops => pops.map .pop
  | .unlock answer => reported answer
  | _ => []

/-! ### Containers -/

/-- The container has its first items and then the values of the pops. -/
def Filled (held : C → List V) (initial container : C) (pops : List (Option V)) : Prop :=
  held container = held initial ++ pops.filterMap id

/-- A container that is given back is filled, and it is full or a pop has found nothing. -/
def AnswerFilled (vec : VecOps C V) (held : C → List V) : PopAnswer C V → Prop
  | .container initial container pops =>
      Filled held initial container pops ∧ (vec.isFull container = true ∨ none ∈ pops)
  | _ => True

/-- What holds of the container that the consumer is filling or about to give back. -/
def PlaceFilled (vec : VecOps C V) (held : C → List V) : ConsumerPc C V → Prop
  | .fill initial container pops => Filled held initial container pops
  | .unlock answer => AnswerFilled vec held answer
  | _ => True

/-! ### The invariant -/

variable [DecidableEq T] {vec : VecOps C V} {held : C → List V}

/-- The invariant, for the vector with the items `held` and the list of the items in the ring. -/
structure CallsOk (vec : VecOps C V) (held : C → List V) (capacity : Nat)
    (s : TriggerSystem T C V) (items : List V) : Prop where
  ring : QueueHolds s.queue items
  capacity_eq : s.queue.capacity.toNat = capacity
  replays : Replays (.new capacity) s.log.events ⟨capacity, items⟩
  locked : Locked s.lock (partyInside s)
  flag : s.state = flagOf s.consumer
  present : s.hasConsumer = false → s.consumer = .absent
  found : Found items s.consumer
  wakes : waits s.consumer = true → items ≠ [] →
    s.notified = true ∨ ∃ t, toNotify (s.pushers t) = true
  pushes : ∀ t, pushesOf t s.log.events = returnsOf t s.log.returns ++ decided (s.pushers t)
  pops : popsOf s.log.events = s.log.answers.flatMap reported ++ unreported s.consumer
  filled : ∀ answer ∈ s.log.answers, AnswerFilled vec held answer
  filling : PlaceFilled vec held s.consumer

theorem callsOk_new (capacity : UInt64) (h : ∃ k < 64, capacity.toNat = 2 ^ k) :
    CallsOk vec held capacity.toNat (.new capacity h : TriggerSystem T C V) [] where
  ring :=
    { len := by simp [TriggerSystem.new, Queue.new, Queue.len]
      length_le := Nat.zero_le _
      ring := ringHolds_nil }
  capacity_eq := rfl
  replays := .nil
  locked := by
    intro party hinside
    cases party <;> cases hinside
  flag := rfl
  present := fun _ => rfl
  found := trivial
  wakes := fun hwaits => by cases hwaits
  pushes := fun _ => rfl
  pops := rfl
  filled := fun _ hmem => by cases hmem
  filling := trivial

variable {capacity : Nat} {s s' : TriggerSystem T C V} {t : T}

/-! ### The steps of a thread in `push` -/

omit [DecidableEq T] in
theorem notifyOne_eq (s : TriggerSystem T C V) :
    s.notifyOne = { s with notified := s.notified || waits s.consumer } := by
  obtain ⟨queue, lock, state, hasConsumer, notified, consumer, pushers, log⟩ := s
  cases consumer <;> cases notified <;> rfl

theorem returnsOf_concat (t u : T) (returns : List (T × V × Bool)) (r : V × Bool) :
    returnsOf u (returns ++ [(t, r)]) = returnsOf u returns ++ if t = u then [r] else [] := by
  unfold returnsOf
  rw [List.filterMap_append]
  by_cases heq : t = u <;> simp [heq]

/-- A thread moves on, with the mutex or not, and the ring stays. -/
theorem CallsOk.pusherGoto (h : CallsOk vec held capacity s items) (pc : PushPc V)
    (lock : Option (TriggerParty T)) (notified : Bool) (returns : List (T × V × Bool))
    (hlock : LockMove (.pusher t) s.lock lock (pusherHolds (s.pushers t) = true)
      (pusherHolds pc = true))
    (hnotified : s.notified = true → notified = true)
    (hwill : waits s.consumer = true → toNotify (s.pushers t) = true →
      notified = true ∨ toNotify pc = true)
    (hself : returnsOf t returns ++ decided pc =
      returnsOf t s.log.returns ++ decided (s.pushers t))
    (hothers : ∀ u, u ≠ t → returnsOf u returns = returnsOf u s.log.returns) :
    CallsOk vec held capacity
      ({ s with lock, notified, log := { s.log with returns } }.setPusher t pc) items where
  ring := h.ring
  capacity_eq := h.capacity_eq
  replays := h.replays
  locked := by
    refine h.locked.move (a := .pusher t) ?_ fun party hne hinside => ?_
    · simpa only [partyInside, TriggerSystem.setPusher, update_self] using hlock
    · cases party with
      | consumer => exact hinside
      | pusher u =>
          have hu : u ≠ t := fun heq => hne (congrArg _ heq)
          simpa only [partyInside, TriggerSystem.setPusher, update_of_ne hu] using hinside
  flag := h.flag
  present := h.present
  found := h.found
  wakes := by
    intro hwaits hne
    rcases h.wakes hwaits hne with hn | ⟨u, hu⟩
    · exact Or.inl (hnotified hn)
    · by_cases heq : u = t
      · subst heq
        refine (hwill hwaits hu).imp_right fun hpc => ⟨u, ?_⟩
        simpa only [TriggerSystem.setPusher, update_self] using hpc
      · refine Or.inr ⟨u, ?_⟩
        simpa only [TriggerSystem.setPusher, update_of_ne heq] using hu
  pushes := by
    intro u
    show pushesOf u s.log.events = returnsOf u returns ++ decided (Function.update s.pushers t pc u)
    by_cases heq : u = t
    · subst heq
      rw [update_self, hself]
      exact h.pushes u
    · rw [update_of_ne heq, hothers u heq]
      exact h.pushes u
  pops := h.pops
  filled := h.filled
  filling := h.filling

/-- A call of `push` returns what was decided. -/
theorem CallsOk.pusherReturn (h : CallsOk vec held capacity s items) {ret : Bool}
    (lock : Option (TriggerParty T)) (notified : Bool)
    (hlock : LockMove (.pusher t) s.lock lock (pusherHolds (s.pushers t) = true)
      (pusherHolds (.idle : PushPc V) = true))
    (hnotified : s.notified = true → notified = true)
    (hwill : waits s.consumer = true → toNotify (s.pushers t) = true → notified = true)
    (hdecided : decided (s.pushers t) = [(value, ret)]) :
    CallsOk vec held capacity ({ s with
      lock, notified
      log := { s.log with returns := s.log.returns ++ [(t, value, ret)] } }.setPusher t .idle)
      items := by
  refine h.pusherGoto .idle lock notified _ hlock hnotified
    (fun hwaits hto => Or.inl (hwill hwaits hto)) ?_ fun u hu => ?_
  · rw [returnsOf_concat, if_pos rfl, hdecided]
    exact List.append_nil _
  · rw [returnsOf_concat, if_neg (Ne.symm hu), List.append_nil]

/-- A thread with the mutex pushes to the ring, and its answer is `ok`. -/
theorem CallsOk.pusherEvent (h : CallsOk vec held capacity s items) {items' : List V}
    (pc : PushPc V)
    (ok : Bool) (hring : QueueHolds queue items') (hcapacity : queue.capacity = s.queue.capacity)
    (hafter : After (⟨capacity, items⟩ : TriggerQueue V) (.push t value ok : TriggerEvent T V)
      ⟨capacity, items'⟩)
    (hpc : s.pushers t = .push value) (hdecided : decided pc = [(value, ok)])
    (hwill : toNotify pc = ok) (hsame : ok = false → items' = items) :
    CallsOk vec held capacity (({ s with queue }.note (.push t value ok)).setPusher t pc)
      items' := by
  -- The thread has the mutex, so the consumer has not, and what it has found is not used yet.
  have hout : consumerHolds s.consumer = false := by
    refine Bool.eq_false_iff.mpr fun hholds => ?_
    have hconsumer : partyInside s .consumer := hholds
    have hpusher : partyInside s (.pusher t) := by simp only [partyInside, hpc, pusherHolds]
    cases h.locked.unique hconsumer hpusher
  exact
    { ring := hring
      capacity_eq := (congrArg UInt64.toNat hcapacity).trans h.capacity_eq
      replays := h.replays.concat _ hafter
      locked := by
        refine h.locked.move (a := .pusher t) ?_ fun party hne hinside => ?_
        · exact .keep rfl fun _ => by simp only [partyInside, hpc, pusherHolds]
        · cases party with
          | consumer => exact hinside
          | pusher u =>
              have hu : u ≠ t := fun heq => hne (congrArg _ heq)
              simpa only [partyInside, TriggerSystem.setPusher, TriggerSystem.note,
                update_of_ne hu] using hinside
      flag := h.flag
      present := h.present
      found := by
        show Found items' s.consumer
        cases hconsumer : s.consumer with
        | block _ | awake _ | take _ | failed =>
            rw [hconsumer] at hout
            cases hout
        | _ => trivial
      wakes := by
        intro hwaits hne
        cases ok with
        | true =>
            refine Or.inr ⟨t, ?_⟩
            simpa only [TriggerSystem.setPusher, update_self] using hwill
        | false =>
            rw [hsame rfl] at hne
            refine (h.wakes hwaits hne).imp_right fun ⟨u, hu⟩ => ⟨u, ?_⟩
            have heq : u ≠ t := by
              rintro rfl
              rw [hpc] at hu
              cases hu
            simpa only [TriggerSystem.setPusher, TriggerSystem.note, update_of_ne heq] using hu
      pushes := by
        intro u
        show pushesOf u (s.log.events ++ [.push t value ok]) =
          returnsOf u s.log.returns ++ decided (Function.update s.pushers t pc u)
        have hold := h.pushes u
        unfold pushesOf at hold ⊢
        rw [List.filterMap_append, hold]
        by_cases heq : u = t
        · subst heq
          rw [hpc, update_self, hdecided]
          simp [decided]
        · rw [update_of_ne heq]
          simp [Ne.symm heq]
      pops := by
        show popsOf (s.log.events ++ [.push t value ok]) = _
        have hold := h.pops
        unfold popsOf at hold ⊢
        rw [List.filterMap_append, hold]
        simp [TriggerSystem.setPusher, TriggerSystem.note]
      filled := h.filled
      filling := h.filling }

/-- The steps of a `push`, up to its notification. -/
theorem CallsOk.stepPusher (h : CallsOk vec held capacity s items)
    (hstep : s.stepPusher t = some s') : ∃ items', CallsOk vec held capacity s' items' := by
  unfold TriggerSystem.stepPusher at hstep
  cases hpc : s.pushers t with
  | idle =>
      rw [hpc] at hstep
      cases hstep
  | lock value =>
      rw [hpc] at hstep
      dsimp only at hstep
      split at hstep
      · rename_i hfree
        cases hstep
        exact ⟨items, h.pusherGoto (.push value) (some (.pusher t)) s.notified s.log.returns
          (.acquire hfree rfl) id (by simp [hpc, toNotify]) (by rw [hpc]; rfl) fun _ _ => rfl⟩
      · cases hstep
  | push value =>
      rw [hpc] at hstep
      dsimp only at hstep
      split at hstep
      · rename_i queue hpush
        cases hstep
        obtain ⟨hring, hcapacity, hroom⟩ := queue_push_true h.ring hpush
        rw [h.capacity_eq] at hroom
        refine ⟨_, h.pusherEvent (.load value) true hring hcapacity ?_ hpc rfl rfl ?_⟩
        · exact if_neg hroom.ne
        · exact fun hok => by cases hok
      · rename_i queue hpush
        cases hstep
        obtain ⟨rfl, hfull⟩ := queue_push_false h.ring hpush
        rw [h.capacity_eq] at hfull
        exact ⟨_, h.pusherEvent (.unlock value false) false h.ring rfl (if_pos hfull) hpc rfl rfl
          fun _ => rfl⟩
  | load value =>
      rw [hpc] at hstep
      dsimp only at hstep
      have hinside : pusherHolds (s.pushers t) = true := by rw [hpc]; rfl
      split at hstep
      · cases hstep
        exact ⟨items, h.pusherGoto (.dropGuard value) s.lock s.notified s.log.returns
          (.keep rfl fun _ => hinside) id (fun _ _ => Or.inr rfl) (by rw [hpc]; rfl) fun _ _ => rfl⟩
      · -- The flag is clear, so the consumer does not wait.
        rename_i hflag
        cases hstep
        refine ⟨items, h.pusherGoto (.unlock value true) s.lock s.notified s.log.returns
          (.keep rfl fun _ => hinside) id (fun hwaits _ => absurd ?_ hflag) (by rw [hpc]; rfl)
          fun _ _ => rfl⟩
        rw [h.flag]
        cases hconsumer : s.consumer with
        | wait timed => rfl
        | _ =>
            rw [hconsumer] at hwaits
            cases hwaits
  | dropGuard value =>
      rw [hpc] at hstep
      cases hstep
      exact ⟨items, h.pusherGoto (.notify value) none s.notified s.log.returns
        (.release (by rw [hpc]; rfl) rfl (by simp [pusherHolds])) id (fun _ _ => Or.inr rfl)
        (by rw [hpc]; rfl) fun _ _ => rfl⟩
  | notify value =>
      -- A consumer that waits is notified, and nobody else has to be.
      rw [hpc] at hstep
      cases hstep
      rw [notifyOne_eq]
      refine ⟨items, h.pusherReturn s.lock (s.notified || waits s.consumer)
        (.keep rfl fun hidle => by cases hidle) ?_ ?_ (by rw [hpc]; rfl)⟩
      · exact fun hn => by rw [hn, Bool.true_or]
      · exact fun hwaits _ => by rw [hwaits, Bool.or_true]
  | unlock value ret =>
      rw [hpc] at hstep
      cases hstep
      refine ⟨items, h.pusherReturn none s.notified
        (.release (by rw [hpc]; rfl) rfl (by simp [pusherHolds])) id ?_ (by rw [hpc]; rfl)⟩
      rw [hpc]
      exact fun _ hwill => by cases hwill

/-! ### The steps of the consumer -/

/-- The consumer moves on, with the mutex or not, and the ring stays. -/
theorem CallsOk.consumerGoto (h : CallsOk vec held capacity s items) (pc : ConsumerPc C V)
    (lock : Option (TriggerParty T)) (state hasConsumer notified : Bool)
    (answers : List (PopAnswer C V))
    (hlock : LockMove .consumer s.lock lock (consumerHolds s.consumer = true)
      (consumerHolds pc = true))
    (hflag : state = flagOf pc) (hpresent : hasConsumer = false → pc = .absent)
    (hfound : Found items pc) (hwaits : waits pc = true → items = [])
    (hpops : answers.flatMap reported ++ unreported pc =
      s.log.answers.flatMap reported ++ unreported s.consumer)
    (hfilled : ∀ answer ∈ answers, AnswerFilled vec held answer)
    (hfilling : PlaceFilled vec held pc) :
    CallsOk vec held capacity
      { s with lock, state, hasConsumer, notified, consumer := pc, log := { s.log with answers } }
      items where
  ring := h.ring
  capacity_eq := h.capacity_eq
  replays := h.replays
  locked := by
    refine h.locked.move hlock fun party hne hinside => ?_
    cases party with
    | consumer => exact absurd rfl hne
    | pusher u => exact hinside
  flag := hflag
  present := hpresent
  found := hfound
  wakes := fun hw hne => absurd (hwaits hw) hne
  pushes := h.pushes
  pops := h.pops.trans hpops.symm
  filled := hfilled
  filling := hfilling

/-- The consumer with the mutex does something to the ring. -/
theorem CallsOk.consumerEvent (h : CallsOk vec held capacity s items) {items' : List V}
    (pc : ConsumerPc C V) (e : TriggerEvent T V) (hring : QueueHolds queue items')
    (hcapacity : queue.capacity = s.queue.capacity)
    (hafter : After (⟨capacity, items⟩ : TriggerQueue V) e ⟨capacity, items'⟩)
    (hinside : consumerHolds s.consumer = true) (hflag : flagOf pc = flagOf s.consumer)
    (hfound : Found items' pc) (hwaits : waits pc = false) (hpush : ∀ t, pushesOf t [e] = [])
    (hpops : unreported pc = unreported s.consumer ++ popsOf [e])
    (hfilling : PlaceFilled vec held pc) :
    CallsOk vec held capacity ({ s with queue, consumer := pc }.note e) items' where
  ring := hring
  capacity_eq := (congrArg UInt64.toNat hcapacity).trans h.capacity_eq
  replays := h.replays.concat e hafter
  locked := by
    refine h.locked.move (a := .consumer) (.keep rfl fun _ => hinside) fun party hne hin => ?_
    cases party with
    | consumer => exact absurd rfl hne
    | pusher u => exact hin
  flag := h.flag.trans hflag.symm
  present := by
    intro hnone
    rw [h.present hnone] at hinside
    cases hinside
  found := hfound
  wakes := by
    intro hw
    rw [show waits pc = true from hw] at hwaits
    cases hwaits
  pushes := by
    intro t
    show pushesOf t (s.log.events ++ [e]) = _
    have hold := h.pushes t
    have hnone := hpush t
    unfold pushesOf at hold hnone ⊢
    rw [List.filterMap_append, hnone, List.append_nil]
    exact hold
  pops := by
    show popsOf (s.log.events ++ [e]) = s.log.answers.flatMap reported ++ unreported pc
    rw [hpops, ← List.append_assoc, ← h.pops]
    exact List.filterMap_append
  filled := h.filled
  filling := hfilling

/-- The consumer takes the mutex. -/
theorem CallsOk.lockConsumer (h : CallsOk vec held capacity s items) (pc : ConsumerPc C V)
    (hflag : flagOf pc = flagOf s.consumer) (hconsumer : s.consumer ≠ .absent)
    (hfound : Found items pc) (hwaits : waits pc = false)
    (hpops : unreported pc = unreported s.consumer) (hfilling : PlaceFilled vec held pc)
    (hstep : s.lockConsumer pc = some s') : CallsOk vec held capacity s' items := by
  unfold TriggerSystem.lockConsumer at hstep
  split at hstep
  · rename_i hfree
    cases hstep
    refine h.consumerGoto pc (some .consumer) s.state s.hasConsumer s.notified s.log.answers
      (.acquire hfree rfl) (h.flag.trans hflag.symm) ?_ hfound ?_ (by rw [hpops]) h.filled hfilling
    · exact fun hnone => absurd (h.present hnone) hconsumer
    · intro hw
      rw [hwaits] at hw
      cases hw
  · cases hstep

/-- A consumer that is there moves on and keeps the mutex or does not want it. -/
theorem CallsOk.consumerStay (h : CallsOk vec held capacity s items) (pc : ConsumerPc C V)
    (state : Bool) (hinside : consumerHolds pc = true → consumerHolds s.consumer = true)
    (hconsumer : s.consumer ≠ .absent) (hflag : state = flagOf pc) (hfound : Found items pc)
    (hwaits : waits pc = false) (hpops : unreported pc = unreported s.consumer)
    (hfilling : PlaceFilled vec held pc) :
    CallsOk vec held capacity { s with state, consumer := pc } items := by
  refine h.consumerGoto pc s.lock state s.hasConsumer s.notified s.log.answers
    (.keep rfl hinside) hflag ?_ hfound ?_ (by rw [hpops]) h.filled hfilling
  · exact fun hnone => absurd (h.present hnone) hconsumer
  · intro hw
    rw [hwaits] at hw
    cases hw

omit [DecidableEq T] in
theorem after_pop_cons (value : V) (items : List V) :
    After (⟨capacity, value :: items⟩ : TriggerQueue V) (.pop (some value) : TriggerEvent T V)
      ⟨capacity, items⟩ :=
  rfl

omit [DecidableEq T] in
theorem after_nil {e : TriggerEvent T V} (h : e = .pop none ∨ e = .timeout) :
    After (⟨capacity, []⟩ : TriggerQueue V) e ⟨capacity, []⟩ := by
  rcases h with rfl | rfl <;> exact ⟨rfl, rfl⟩

/-- The consumer with the mutex pops from the ring. -/
theorem CallsOk.consumerPop (h : CallsOk vec held capacity s items) (pc : ConsumerPc C V)
    {value : Option V}
    (hpop : s.queue.pop = (queue, value)) (hinside : consumerHolds s.consumer = true)
    (hflag : flagOf pc = flagOf s.consumer) (hfound : ∀ items', Found items' pc)
    (hwaits : waits pc = false) (hpops : unreported pc = unreported s.consumer ++ [.pop value])
    (hfilling : PlaceFilled vec held pc) :
    ∃ items', CallsOk vec held capacity ({ s with queue, consumer := pc }.note (.pop value))
      items' := by
  cases value with
  | none =>
      obtain ⟨rfl, rfl⟩ := queue_pop_none h.ring hpop
      exact ⟨[], h.consumerEvent pc _ h.ring rfl (after_nil (Or.inl rfl)) hinside hflag (hfound [])
        hwaits (fun _ => rfl) hpops hfilling⟩
  | some value =>
      obtain ⟨rest, rfl, hring, hcapacity⟩ := queue_pop_some h.ring hpop
      exact ⟨rest, h.consumerEvent pc _ hring hcapacity (after_pop_cons value rest) hinside hflag
        (hfound rest) hwaits (fun _ => rfl) hpops hfilling⟩

theorem CallsOk.fillRound (hvec : vec.Lawful held) (h : CallsOk vec held capacity s items)
    {initial container : C} {pops : List (Option V)}
    (hpc : s.consumer = .fill initial container pops) :
    ∃ items', CallsOk vec held capacity (s.fillRound vec initial container pops) items' := by
  have hinside : consumerHolds s.consumer = true := by rw [hpc]; rfl
  have hflag : flagOf s.consumer = false := by rw [hpc]; rfl
  have hunreported : unreported s.consumer = pops.map .pop := by rw [hpc]; rfl
  have hfilled : Filled held initial container pops := by
    have hfilling := h.filling
    rwa [hpc] at hfilling
  unfold TriggerSystem.fillRound
  split
  · rename_i hfull
    refine ⟨items, h.consumerStay _ s.state (fun _ => hinside) ?_ (h.flag.trans hflag) trivial rfl
      hunreported.symm ⟨hfilled, Or.inl hfull⟩⟩
    rw [hpc]
    exact fun habsent => by cases habsent
  · rename_i hfull
    split
    · -- The ring is empty: the last pop adds nothing to the container.
      rename_i queue hpop
      refine h.consumerPop _ hpop hinside hflag.symm (fun _ => trivial) rfl ?_ ⟨?_, Or.inr ?_⟩
      · rw [hunreported]
        exact List.map_append
      · simpa [Filled] using hfilled
      · exact List.mem_append_right _ List.mem_cons_self
    · rename_i queue value hpop
      obtain ⟨c, hc, hitems⟩ := hvec.push container value (Bool.eq_false_iff.mpr hfull)
      rw [hc]
      refine h.consumerPop _ hpop hinside hflag.symm (fun _ => trivial) rfl ?_ ?_
      · rw [hunreported]
        exact List.map_append
      · show held c = held initial ++ (pops ++ [some value]).filterMap id
        rw [hitems, hfilled, List.filterMap_append, List.append_assoc]
        rfl

/-- A call begins with the mutex. -/
theorem CallsOk.lockCall (h : CallsOk vec held capacity s items) {call : PopCall C}
    (hpc : s.consumer = .lock call) (hstep : s.lockConsumer call.start = some s') :
    CallsOk vec held capacity s' items := by
  refine h.lockConsumer call.start ?_ ?_ ?_ ?_ ?_ ?_ hstep
  · rw [hpc]
    cases call <;> rfl
  · rw [hpc]
    exact fun habsent => by cases habsent
  · cases call <;> trivial
  · cases call <;> rfl
  · rw [hpc]
    cases call <;> rfl
  · cases call with
    | popIntoVec container => exact (List.append_nil _).symm
    | _ => trivial

/-- The condition of the wait is looked at with the mutex. -/
theorem CallsOk.check (h : CallsOk vec held capacity s items) {timed : Bool}
    (hpc : s.consumer = .check timed) (hstep : s.stepConsumer vec = some s') :
    CallsOk vec held capacity s' items := by
  simp only [TriggerSystem.stepConsumer, hpc] at hstep
  have hflag := h.flag
  rw [hpc] at hflag
  split at hstep
  · rename_i hempty
    cases hstep
    exact h.consumerStay _ s.state (fun _ => by rw [hpc]; rfl) (by rw [hpc]; simp) hflag
      (h.ring.isEmpty_iff.mp hempty) rfl (by rw [hpc]; rfl) trivial
  · rename_i hempty
    cases hstep
    exact h.consumerStay _ s.state (fun _ => by rw [hpc]; rfl) (by rw [hpc]; simp) hflag
      (fun hnil => hempty (h.ring.isEmpty_iff.mpr hnil)) rfl (by rw [hpc]; rfl) trivial

/-- The wait releases the mutex, with the ring still empty. -/
theorem CallsOk.block (h : CallsOk vec held capacity s items) {timed : Bool}
    (hpc : s.consumer = .block timed) : CallsOk vec held capacity
      { s with lock := none, notified := false, consumer := .wait timed } items := by
  have hnil := h.found
  rw [hpc] at hnil
  have hflag := h.flag
  rw [hpc] at hflag
  refine h.consumerGoto (.wait timed) none s.state s.hasConsumer false s.log.answers
    (.release (by rw [hpc]; rfl) rfl (by simp [consumerHolds])) hflag ?_ trivial
    (fun _ => hnil) (by rw [hpc]; rfl) h.filled trivial
  exact fun hnone => absurd (h.present hnone) (by rw [hpc]; simp)

/-- After the wait the consumer gives up, or takes the value that it has found. -/
theorem CallsOk.take (h : CallsOk vec held capacity s items) {timedOut : Bool}
    (hpc : s.consumer = .take timedOut) (hstep : s.stepConsumer vec = some s') :
    ∃ items', CallsOk vec held capacity s' items' := by
  have hfound := h.found
  rw [hpc] at hfound
  have hinside : consumerHolds s.consumer = true := by rw [hpc]; rfl
  cases timedOut with
  | true =>
      simp only [TriggerSystem.stepConsumer, hpc] at hstep
      cases hstep
      have hnil : items = [] := hfound
      subst hnil
      have hring : QueueHolds s.queue [] := h.ring
      exact ⟨[], h.consumerEvent _ _ hring rfl (after_nil (Or.inr rfl)) hinside
        (by rw [hpc]; rfl) trivial rfl (fun _ => rfl) (by rw [hpc]; rfl) trivial⟩
  | false =>
      simp only [TriggerSystem.stepConsumer, hpc] at hstep
      split at hstep
      · rename_i queue value hpop
        cases hstep
        exact h.consumerPop _ hpop hinside (by rw [hpc]; rfl) (fun _ => trivial) rfl
          (by rw [hpc]; rfl) trivial
      · -- The `unwrap` after a wait that has not timed out.
        rename_i queue hpop
        exact absurd (queue_pop_none h.ring hpop).1 hfound

/-- A call returns its answer. -/
theorem CallsOk.unlock (h : CallsOk vec held capacity s items) {answer : PopAnswer C V}
    (hpc : s.consumer = .unlock answer) : CallsOk vec held capacity
      { s with
        lock := none
        consumer := .idle
        log := { s.log with answers := s.log.answers ++ [answer] } } items := by
  have hflag := h.flag
  rw [hpc] at hflag
  have hfilling := h.filling
  rw [hpc] at hfilling
  refine h.consumerGoto .idle none s.state s.hasConsumer s.notified
    (s.log.answers ++ [answer]) (.release (by rw [hpc]; rfl) rfl (by simp [consumerHolds]))
    hflag ?_ trivial (fun hwaits => by cases hwaits) ?_ ?_ trivial
  · exact fun hnone => absurd (h.present hnone) (by rw [hpc]; simp)
  · rw [hpc]
    simp [unreported]
  · intro answer' hmem
    rcases List.mem_append.mp hmem with hold | hnew
    · exact h.filled answer' hold
    · rw [List.mem_singleton.mp hnew]
      exact hfilling

/-- The steps of the consumer, one case for each place. -/
theorem CallsOk.stepConsumer (hvec : vec.Lawful held) (h : CallsOk vec held capacity s items)
    (hstep : s.stepConsumer vec = some s') : ∃ items', CallsOk vec held capacity s' items' := by
  cases hpc : s.consumer with
  | absent | idle | wait timed | failed =>
      simp only [TriggerSystem.stepConsumer, hpc] at hstep
      cases hstep
  | lock call =>
      simp only [TriggerSystem.stepConsumer, hpc] at hstep
      exact ⟨items, h.lockCall hpc hstep⟩
  | pop =>
      have hinside : consumerHolds s.consumer = true := by rw [hpc]; rfl
      rcases hpop : s.queue.pop with ⟨queue, value⟩
      simp only [TriggerSystem.stepConsumer, hpc, hpop, Option.some.injEq] at hstep
      subst hstep
      exact h.consumerPop _ hpop hinside (by rw [hpc]; rfl) (fun _ => trivial) rfl
        (by rw [hpc]; rfl) trivial
  | fill initial container pops =>
      simp only [TriggerSystem.stepConsumer, hpc] at hstep
      cases hstep
      exact h.fillRound hvec hpc
  | falling timed =>
      -- The first of the two stores to `state`.
      simp only [TriggerSystem.stepConsumer, hpc] at hstep
      cases hstep
      exact ⟨items, h.consumerStay _ true (fun _ => by rw [hpc]; rfl) (by rw [hpc]; simp) rfl
        trivial rfl (by rw [hpc]; rfl) trivial⟩
  | check timed => exact ⟨items, h.check hpc hstep⟩
  | block timed =>
      simp only [TriggerSystem.stepConsumer, hpc] at hstep
      cases hstep
      exact ⟨items, h.block hpc⟩
  | relock timed =>
      simp only [TriggerSystem.stepConsumer, hpc] at hstep
      exact ⟨items, h.lockConsumer (.check timed) (by rw [hpc]; rfl) (by rw [hpc]; simp) trivial
        rfl (by rw [hpc]; rfl) trivial hstep⟩
  | awake timedOut =>
      -- The second store to `state`.
      simp only [TriggerSystem.stepConsumer, hpc] at hstep
      cases hstep
      have hfound := h.found
      rw [hpc] at hfound
      refine ⟨items, h.consumerStay _ false (fun _ => by rw [hpc]; rfl) (by rw [hpc]; simp) rfl ?_
        rfl (by rw [hpc]; rfl) trivial⟩
      cases timedOut <;> exact hfound
  | take timedOut => exact h.take hpc hstep
  | unlock answer =>
      simp only [TriggerSystem.stepConsumer, hpc] at hstep
      cases hstep
      exact ⟨items, h.unlock hpc⟩

/-! ### Whole runs -/

/-- Every step keeps `CallsOk`, with some list of items. -/
theorem CallsOk.step (hvec : vec.Lawful held) (h : CallsOk vec held capacity s items)
    {a : TriggerMove T C V} (hstep : s.step vec a = some s') :
    ∃ items', CallsOk vec held capacity s' items' := by
  cases a with
  | getConsumer =>
      simp only [TriggerSystem.step] at hstep
      split at hstep
      · cases hstep
        exact ⟨items, h⟩
      · rename_i hnone
        cases hstep
        have habsent := h.present (Bool.eq_false_iff.mpr hnone)
        have hflag := h.flag
        rw [habsent] at hflag
        exact ⟨items, h.consumerGoto .idle s.lock s.state true s.notified s.log.answers
          (.keep rfl fun hidle => by cases hidle) hflag (fun hfalse => by cases hfalse) trivial
          (fun hwaits => by cases hwaits) (by rw [habsent]; rfl) h.filled trivial⟩
  | dropConsumer =>
      simp only [TriggerSystem.step] at hstep
      split at hstep
      · rename_i hpc
        cases hstep
        have hflag := h.flag
        rw [hpc] at hflag
        exact ⟨items, h.consumerGoto .absent s.lock s.state false s.notified s.log.answers
          (.keep rfl fun hout => by cases hout) hflag (fun _ => rfl) trivial
          (fun hwaits => by cases hwaits) (by rw [hpc]; rfl) h.filled trivial⟩
      · cases hstep
  | call call =>
      simp only [TriggerSystem.step] at hstep
      split at hstep
      · rename_i hpc
        cases hstep
        have hflag := h.flag
        rw [hpc] at hflag
        exact ⟨items, h.consumerStay (.lock call) s.state (fun hout => by cases hout)
          (by rw [hpc]; simp) hflag trivial rfl (by rw [hpc]; rfl) trivial⟩
      · cases hstep
  | advance => exact h.stepConsumer hvec hstep
  | elapsed =>
      simp only [TriggerSystem.step] at hstep
      split at hstep
      · rename_i hpc
        split at hstep
        · rename_i hempty
          cases hstep
          have hflag := h.flag
          rw [hpc] at hflag
          exact ⟨items, h.consumerStay (.awake true) s.state (fun _ => by rw [hpc]; rfl)
            (by rw [hpc]; simp) hflag (h.ring.isEmpty_iff.mp hempty) rfl (by rw [hpc]; rfl) trivial⟩
        · cases hstep
      · cases hstep
  | wakeUp =>
      simp only [TriggerSystem.step] at hstep
      split at hstep
      · rename_i timed hpc
        cases hstep
        have hflag := h.flag
        rw [hpc] at hflag
        exact ⟨items, h.consumerStay (.relock timed) s.state (fun hout => by cases hout)
          (by rw [hpc]; simp) hflag trivial rfl (by rw [hpc]; rfl) trivial⟩
      · cases hstep
  | push t value =>
      simp only [TriggerSystem.step] at hstep
      split at hstep
      · rename_i hpc
        cases hstep
        exact ⟨items, h.pusherGoto (.lock value) s.lock s.notified s.log.returns
          (.keep rfl fun hout => by cases hout) id (by simp [hpc, toNotify]) (by rw [hpc]; rfl)
          fun _ _ => rfl⟩
      · cases hstep
  | pusher t => exact h.stepPusher hstep

/-- A thread has seen the flag `state`, or will see it with its next step, and has not notified the
consumer yet. -/
def AboutToNotify (s : TriggerSystem T C V) (t : T) : Prop :=
  (∃ value, s.pushers t = .load value ∧ s.state = true) ∨
    ∃ value, s.pushers t = .dropGuard value ∨ s.pushers t = .notify value

/-- For every capacity, any number of pushing threads and the consumer with all its calls, in every
state of every interleaving there is a list of items in the ring such that:

* the values popped so far and the items are the values that were accepted, in their order;
* the queue as a list can do what was done to the ring. So a push was refused only when the queue
  was full, a pop found nothing and a blocking pop gave up only when it was empty, and none of these
  changed it;
* every call has returned the answer of what it did, or will do so;
* a container that was given back by `pop_into_vec` has the items that it had before, followed by
  the values of the pops of that call, and it is full or the last pop has found the queue empty;
* the next push to the ring is refused if and only if the ring is full, and then nothing changes;
* no `unwrap` has failed;
* if the consumer waits and there are items, it was notified in this wait, or a thread that has seen
  the flag of the consumer is about to notify it. -/
theorem trigger_queue_fifo_wakes (hvec : vec.Lawful held) (capacity : UInt64)
    (hcapacity : ∃ k < 64, capacity.toNat = 2 ^ k) {s : TriggerSystem T C V}
    (hrun : Reaches (TriggerSystem.step vec) anyStep (TriggerSystem.new capacity hcapacity) s) :
    ∃ items, QueueHolds s.queue items ∧
      popped s.log.events ++ items = accepted s.log.events ∧
      Replays (.new capacity.toNat) s.log.events ⟨capacity.toNat, items⟩ ∧
      (∀ t, pushesOf t s.log.events = returnsOf t s.log.returns ++ decided (s.pushers t)) ∧
      popsOf s.log.events = s.log.answers.flatMap reported ++ unreported s.consumer ∧
      (∀ initial container pops, .container initial container pops ∈ s.log.answers →
        held container = held initial ++ pops.filterMap id ∧
          (vec.isFull container = true ∨ none ∈ pops)) ∧
      (∀ t value, s.pushers t = .push value → items.length = capacity.toNat →
        s.step vec (.pusher t) =
          some ((s.note (.push t value false)).setPusher t (.unlock value false))) ∧
      (∀ t value, s.pushers t = .push value → items.length ≠ capacity.toNat →
        ∃ queue, QueueHolds queue (items ++ [value]) ∧ s.step vec (.pusher t) =
          some (({ s with queue }.note (.push t value true)).setPusher t (.load value))) ∧
      s.consumer ≠ .failed ∧
      ∀ timed, s.consumer = .wait timed → items ≠ [] →
        s.notified = true ∨ ∃ t, AboutToNotify s t := by
  have hok : ∃ items, CallsOk vec held capacity.toNat s items :=
    hrun.invariant (I := fun s => ∃ items, CallsOk vec held capacity.toNat s items)
      ⟨[], callsOk_new capacity hcapacity⟩ fun _ _ _ ⟨_, h⟩ _ hstep => h.step hvec hstep
  obtain ⟨items, h⟩ := hok
  refine ⟨items, h.ring, ?_, h.replays, h.pushes, h.pops, ?_, ?_, ?_, ?_, ?_⟩
  · exact h.replays.popped_append
  · exact fun initial container pops hmem => h.filled _ hmem
  · intro t value hpc hfull
    have hpush := h.ring.push_full (by rw [h.capacity_eq, hfull]) value
    simp only [TriggerSystem.step, TriggerSystem.stepPusher, hpc, hpush]
  · intro t value hpc hne
    have hroom := lt_of_le_of_ne h.ring.length_le (by rwa [h.capacity_eq])
    obtain ⟨queue, hpush, hring, -⟩ := h.ring.push hroom value
    refine ⟨queue, hring, ?_⟩
    simp only [TriggerSystem.step, TriggerSystem.stepPusher, hpc, hpush]
  · intro hfailed
    have hfound := h.found
    rw [hfailed] at hfound
    exact hfound
  · intro timed hpc hne
    refine (h.wakes (by rw [hpc]; rfl) hne).imp_right fun ⟨t, ht⟩ => ⟨t, ?_⟩
    have hflag := h.flag
    rw [hpc] at hflag
    cases hpusher : s.pushers t with
    | load value => exact Or.inl ⟨value, hpusher, hflag⟩
    | dropGuard value => exact Or.inr ⟨value, Or.inl hpusher⟩
    | notify value => exact Or.inr ⟨value, Or.inr hpusher⟩
    | _ =>
        rw [hpusher] at ht
        cases ht

theorem boundedList_lawful (capacity : Nat) : (boundedList V capacity).Lawful id where
  push := by
    intro l v hfull
    have hroom : l.length < capacity := not_le.mp (of_decide_eq_false hfull)
    exact ⟨l ++ [v], if_pos hroom, rfl⟩

/-- A queue of one place. The consumer has taken a value into a container that had one. Then it
waits, one thread has pushed a value and has seen the flag, and the push of the other one was
refused. -/
theorem trigger_queue_fifo_wakes_waiting :
    ∃ s : TriggerSystem Bool (List Nat) Nat,
      Reaches (TriggerSystem.step (boundedList Nat 2)) anyStep
        (TriggerSystem.new 1 ⟨0, by decide, rfl⟩) s ∧
      s.consumer = .wait false ∧ s.log.returns = [(false, 5, true), (true, 8, false)] ∧
      s.notified = false ∧
      (∃ container, s.log.answers = [.container [3] container [some 5]] ∧ container = [3] ++ [5]) ∧
      ∃ t, AboutToNotify s t := by
  have hexists : ∃ s : TriggerSystem Bool (List Nat) Nat,
      Reaches (TriggerSystem.step (boundedList Nat 2)) anyStep
          (TriggerSystem.new 1 ⟨0, by decide, rfl⟩) s ∧
        s.consumer = .wait false ∧ s.log.returns = [(false, 5, true), (true, 8, false)] ∧
          s.notified = false ∧ s.log.answers = [.container [3] [3, 5] [some 5]] ∧
          accepted s.log.events = [5, 7] ∧ popped s.log.events = [5] :=
    exists_reaches
      [.getConsumer, .push false 5, .pusher false, .pusher false, .pusher false, .pusher false,
        .call (.popIntoVec [3]), .advance, .advance, .advance, .advance,
        .call .popBlocking, .advance, .advance, .advance, .advance, .push false 7,
        .pusher false, .pusher false, .pusher false, .pusher false, .push true 8, .pusher true,
        .pusher true, .pusher true]
      (by decide)
  obtain ⟨s, hrun, hconsumer, hreturns, hnotified, hanswers, haccepted, hpopped⟩ := hexists
  obtain ⟨items, -, hitems, -, -, -, hfilled, -, -, -, hwakes⟩ :=
    trigger_queue_fifo_wakes (boundedList_lawful 2) 1 ⟨0, by decide, rfl⟩ hrun
  refine ⟨s, hrun, hconsumer, hreturns, hnotified, ⟨_, hanswers, ?_⟩, ?_⟩
  · exact (hfilled [3] [3, 5] [some 5] (by rw [hanswers]; exact List.mem_cons_self)).1
  rw [haccepted, hpopped] at hitems
  have hne : items ≠ [] := by
    rintro rfl
    cases hitems
  rcases hwakes false hconsumer hne with htrue | hwill
  · rw [hnotified] at htrue
    cases htrue
  · exact hwill

end Kyron.Proofs.Containers
