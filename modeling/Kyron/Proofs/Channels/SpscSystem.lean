import Kyron.Channels.SpscSystem

/-!
# `Kyron.Proofs.Channels.SpscSystem`: no value and no wake-up is lost in a channel

`SpscOk` is the invariant of the two threads.

* `gone`, `present`: as long as the receiver is there, `connected_state` says whether the sender is.
* `place`: a stored waker belongs to an empty queue of a connected sender, or the sender is about
  to take it. This is what makes the shortcut of `receive` right: when the waker of the last poll
  is still in the store, the sender has not taken it after a push.
* `pended`: a waker that was stored by a poll that returned `Pending` is still in the store, or it
  was woken.
* `items`, `ended`: what was received and what is in the queue is what was sent.

The results are `spsc_wakeup_not_lost` and `spsc_lossless_fifo`. `receive_alone`, `send_alone` and
`senderDropping_alone` connect the steps with the calls of `Kyron.Channels.Spsc`: a call that is not
interrupted computes what is said there.
-/

set_option autoImplicit false

namespace Kyron.Proofs.Channels

open Kyron.Channels
open Kyron.Futures
open Kyron.Lib
open Kyron.Scheduler
open SpscSystem
open Channel

variable {T P F : Type} {size : Nat}

/-! ### The queue -/

variable {q : SpscQueue T size}

theorem push_items {q' : SpscQueue T size} {v : T} (h : q.push v = some q') :
    q'.items = q.items ++ [v] := by
  unfold SpscQueue.push at h
  split at h
  · cases h
    rfl
  · cases h

theorem pop_items {q' : SpscQueue T size} {v : T} (h : q.pop = some (v, q')) :
    q.items = v :: q'.items := by
  unfold SpscQueue.pop at h
  split at h
  · cases h
  · rename_i hitems
    cases h
    exact hitems

theorem pop_eq_none_iff : q.pop = none ↔ q.items = [] := by
  unfold SpscQueue.pop
  split
  · rename_i hitems
    simp [hitems]
  · rename_i hitems
    simp [hitems]

theorem isEmpty_iff : q.isEmpty = true ↔ q.items = [] :=
  List.isEmpty_iff

theorem isEmpty_eq_isNone_pop (q : SpscQueue T size) : q.isEmpty = q.pop.isNone := by
  rw [Bool.eq_iff_iff, isEmpty_iff, Option.isNone_iff_eq_none, pop_eq_none_iff]

/-! ### The invariant -/

/-- The sender has pushed a value or has left, and is about to take the waker. -/
def Owes : SenderPc T → Prop
  | .take _ | .dropTake => True
  | _ => False

/-- The sender has made its swap of `SENDER_GONE`. -/
def Dropped : SenderPc T → Prop
  | .dropTake | .gone => True
  | _ => False

/-- The receiver has made its store of `RECV_GONE`. -/
def RecvDropped : ReceiverPc P F → Prop
  | .dropTake | .gone => True
  | _ => False

/-- The value of a `send` that can only return `Ok` any more. -/
def inFlight : SenderPc T → List T
  | .take v => [v]
  | _ => []

/-- There is nothing to be woken for, or the sender is about to take the waker. -/
def Quiet (s : SpscSystem T P F size) : Prop :=
  (s.chan.queue.items = [] ∧ s.chan.connectedState = bothIn) ∨ Owes s.sender

/-- The waker is still in the store, or it was woken. -/
def Kept (s : SpscSystem T P F size) (waker : Waker P F) : Prop :=
  ∀ p, waker.data = some p → s.chan.wakerStore.data = some p ∨ createWaker p ∈ s.woken

/-- What the receiver can rely on at its place. -/
def PlaceOk (s : SpscSystem T P F size) : Prop :=
  match s.receiver with
  | .idle | .swap _ => s.chan.wakerStore.data ≠ none → Quiet s
  -- On the way round the loop the waker may be stored with a value in the queue.
  | .isEmpty _ => s.chan.wakerStore.data ≠ none → s.chan.queue.items ≠ [] ∨ Quiet s
  | .load waker => Kept s waker
  | .recheck waker state =>
      Kept s waker ∧ (state = senderGone → Dropped s.sender) ∧
        (state ≠ senderGone → s.chan.wakerStore.data ≠ none →
          s.chan.connectedState = bothIn ∨ Owes s.sender)
  | .clear _ => s.chan.queue.items = [] ∧ Dropped s.sender
  | .take _ => s.chan.queue.items ≠ []
  | .pop _ => s.chan.queue.items ≠ [] ∧ s.chan.wakerStore.data = none
  | .panicked => False
  | .dropStore | .dropTake | .gone => True

structure SpscOk (s : SpscSystem T P F size) : Prop where
  gone : Dropped s.sender → ¬ RecvDropped s.receiver → s.chan.connectedState = senderGone
  present : ¬ Dropped s.sender → ¬ RecvDropped s.receiver → s.chan.connectedState = bothIn
  place : PlaceOk s
  pended : ∀ waker, s.receiver = .idle → s.lastPoll = some (waker, .pending) → Kept s waker
  items : s.received ++ s.chan.queue.items = s.sent ++ inFlight s.sender
  ended : s.ended = true → Dropped s.sender ∧ s.chan.queue.items = []

theorem spscOk_new : SpscOk (SpscSystem.new : SpscSystem T P F size) where
  gone := fun h => h.elim
  present := fun _ _ => rfl
  place := fun h => absurd rfl h
  pended := fun _ _ h => by cases h
  items := rfl
  ended := fun h => by cases h

/-! ### The steps of the sender -/

section Sender

variable {s s' : SpscSystem T P F size}

/-- What the sender does is harmless for the receiver. -/
structure SenderMove (s s' : SpscSystem T P F size) : Prop where
  receiver : s'.receiver = s.receiver
  lastPoll : s'.lastPoll = s.lastPoll
  received : s'.received = s.received
  ended : s'.ended = s.ended
  store : s'.chan.wakerStore.data ≠ none → s.chan.wakerStore.data ≠ none
  kept : ∀ waker, Kept s waker → Kept s' waker
  quiet : s'.chan.wakerStore.data ≠ none → Quiet s → Quiet s'
  conn : s'.chan.wakerStore.data ≠ none → s.chan.connectedState = bothIn ∨ Owes s.sender →
    s'.chan.connectedState = bothIn ∨ Owes s'.sender
  dropped : Dropped s.sender → Dropped s'.sender ∧ s'.chan.queue.items = s.chan.queue.items
  items : s.chan.queue.items ≠ [] → s'.chan.queue.items ≠ []

/-- A step of the sender leaves the receiver where it stands. -/
theorem PlaceOk.sender (h : PlaceOk s) (hmove : SenderMove s s') : PlaceOk s' := by
  unfold PlaceOk at h ⊢
  rw [hmove.receiver]
  cases hpc : s.receiver with
  | idle | swap waker =>
      simp only [hpc] at h ⊢
      exact fun hstore => hmove.quiet hstore (h (hmove.store hstore))
  | isEmpty waker =>
      simp only [hpc] at h ⊢
      exact fun hstore => (h (hmove.store hstore)).imp hmove.items (hmove.quiet hstore)
  | load waker =>
      simp only [hpc] at h ⊢
      exact hmove.kept waker h
  | recheck waker state =>
      simp only [hpc] at h ⊢
      obtain ⟨hkept, hgone, hconn⟩ := h
      exact ⟨hmove.kept waker hkept, fun hstate => (hmove.dropped (hgone hstate)).1,
        fun hstate hstore => hmove.conn hstore (hconn hstate (hmove.store hstore))⟩
  | clear waker =>
      simp only [hpc] at h ⊢
      obtain ⟨hempty, hdropped⟩ := h
      obtain ⟨hdropped', hsame⟩ := hmove.dropped hdropped
      exact ⟨hsame.trans hempty, hdropped'⟩
  | take waker =>
      simp only [hpc] at h ⊢
      exact hmove.items h
  | pop waker =>
      simp only [hpc] at h ⊢
      exact ⟨hmove.items h.1, by_contra fun hstore => hmove.store hstore h.2⟩
  | panicked =>
      simp only [hpc] at h
  | dropStore | dropTake | gone => trivial

/-- A step of the sender keeps the invariant. -/
theorem SpscOk.sender (h : SpscOk s) (hmove : SenderMove s s')
    (hgone : Dropped s'.sender → ¬ RecvDropped s.receiver → s'.chan.connectedState = senderGone)
    (hpresent : ¬ Dropped s'.sender → ¬ RecvDropped s.receiver → s'.chan.connectedState = bothIn)
    (hitems : s.received ++ s'.chan.queue.items = s'.sent ++ inFlight s'.sender) : SpscOk s' where
  gone := by
    rw [hmove.receiver]
    exact hgone
  present := by
    rw [hmove.receiver]
    exact hpresent
  place := h.place.sender hmove
  pended := by
    intro waker hidle hlast
    rw [hmove.receiver] at hidle
    rw [hmove.lastPoll] at hlast
    exact hmove.kept waker (h.pended waker hidle hlast)
  items := by
    rw [hmove.received]
    exact hitems
  ended := by
    intro hended
    rw [hmove.ended] at hended
    obtain ⟨hdropped, hempty⟩ := h.ended hended
    obtain ⟨hdropped', hsame⟩ := hmove.dropped hdropped
    exact ⟨hdropped', hsame.trans hempty⟩

variable {pc : SenderPc T}

/-- The sender moves and leaves the channel alone. -/
theorem SpscOk.gotoSender (h : SpscOk s) (howes : ¬ Owes s.sender)
    (hsame : Dropped pc ↔ Dropped s.sender) (hflight : inFlight pc = inFlight s.sender) :
    SpscOk { s with sender := pc } := by
  refine h.sender ⟨rfl, rfl, rfl, rfl, id, fun _ => id, ?_, ?_, ?_, id⟩ ?_ ?_ ?_
  · exact fun _ hquiet => Or.inl (hquiet.resolve_right howes)
  · exact fun _ hconn => Or.inl (hconn.resolve_right howes)
  · exact fun hdropped => ⟨hsame.mpr hdropped, rfl⟩
  · exact fun hdropped => h.gone (hsame.mp hdropped)
  · exact fun hnot => h.present (mt hsame.mpr hnot)
  · rw [h.items]
    simp only [hflight]

/-- A value is pushed. -/
theorem push_ok (h : SpscOk s) {v : T} {queue : SpscQueue T size} (hpc : s.sender = .push v)
    (hpush : s.chan.queue.push v = some queue) :
    SpscOk { s with chan := { s.chan with queue }, sender := .take v } := by
  have hitems := push_items hpush
  have hnot : ¬ Dropped s.sender := by
    rw [hpc]
    exact id
  refine h.sender ⟨rfl, rfl, rfl, rfl, id, fun _ => id, ?_, ?_, ?_, ?_⟩ ?_ ?_ ?_
  · exact fun _ _ => Or.inr trivial
  · exact fun _ _ => Or.inr trivial
  · exact fun hdropped => absurd hdropped hnot
  · intro _ hnil
    rw [hitems] at hnil
    exact absurd hnil (by simp)
  · exact fun hdropped => hdropped.elim
  · exact fun _ => h.present hnot
  · have hold := h.items
    rw [hpc] at hold
    rw [hitems, ← List.append_assoc, hold]
    simp [inFlight]

/-- The sender wakes whoever is stored, and owes nothing after that. -/
theorem takeAndWake_ok (h : SpscOk s) {sent : List T} (hsame : Dropped pc ↔ Dropped s.sender)
    (hsent : sent ++ inFlight pc = s.sent ++ inFlight s.sender) :
    SpscOk { s.takeAndWake with sender := pc, sent } := by
  refine h.sender ⟨rfl, rfl, rfl, rfl, ?_, ?_, ?_, ?_, ?_, id⟩ ?_ ?_ ?_
  · exact fun hstore => absurd rfl hstore
  · intro waker hkept p hp
    right
    rcases hkept p hp with hstore | hwoken
    · simp [takeAndWake, AtomicWakerStore.take, AtomicWakerStore.swap, hstore]
    · exact List.mem_append_right _ hwoken
  · exact fun hstore => absurd rfl hstore
  · exact fun hstore => absurd rfl hstore
  · exact fun hdropped => ⟨hsame.mpr hdropped, rfl⟩
  · exact fun hdropped => h.gone (hsame.mp hdropped)
  · exact fun hnot => h.present (mt hsame.mpr hnot)
  · exact h.items.trans hsent.symm

/-- The swap of `sender_dropping`. A receiver that is there will be woken. -/
theorem dropSwap_ok (h : SpscOk s) (hpc : s.sender = .dropSwap) :
    SpscOk { s with
      chan := { s.chan with connectedState := senderGone }
      sender := if s.chan.connectedState = bothIn then .dropTake else .gone } := by
  have hnot : ¬ Dropped s.sender := by
    rw [hpc]
    exact id
  have howes : ¬ Owes s.sender := by
    rw [hpc]
    exact id
  have hold := h.items
  rw [hpc] at hold
  split
  · refine h.sender ⟨rfl, rfl, rfl, rfl, id, fun _ => id, ?_, ?_, ?_, id⟩ ?_ ?_ ?_
    · exact fun _ _ => Or.inr trivial
    · exact fun _ _ => Or.inr trivial
    · exact fun hdropped => absurd hdropped hnot
    · exact fun _ _ => rfl
    · exact fun hpresent => absurd trivial hpresent
    · exact hold
  · -- The receiver has left before.
    rename_i hstate
    have hquiet : ¬ Quiet s := fun hquiet => hquiet.elim (fun hempty => hstate hempty.2) howes
    have hconn : ¬ (s.chan.connectedState = bothIn ∨ Owes s.sender) := fun hconn =>
      hconn.elim hstate howes
    refine h.sender ⟨rfl, rfl, rfl, rfl, id, fun _ => id, ?_, ?_, ?_, id⟩ ?_ ?_ ?_
    · exact fun _ hquiet' => absurd hquiet' hquiet
    · exact fun _ hconn' => absurd hconn' hconn
    · exact fun hdropped => absurd hdropped hnot
    · exact fun _ _ => rfl
    · exact fun hpresent => absurd trivial hpresent
    · exact hold

/-- The steps of `send` and of the drop of the sender. -/
theorem stepSender_ok (h : SpscOk s) (hstep : s.stepSender = some s') : SpscOk s' := by
  unfold stepSender at hstep
  split at hstep
  · -- load
    rename_i v hpc
    split at hstep <;> cases hstep <;>
      exact h.gotoSender (by rw [hpc]; exact id) (by rw [hpc]; exact Iff.rfl) (by rw [hpc]; rfl)
  · -- push
    rename_i v hpc
    split at hstep
    · cases hstep
      exact h.gotoSender (by rw [hpc]; exact id) (by rw [hpc]; exact Iff.rfl) (by rw [hpc]; rfl)
    · rename_i queue hpush
      cases hstep
      exact push_ok h hpc hpush
  · -- take
    rename_i v hpc
    cases hstep
    exact takeAndWake_ok h (by rw [hpc]; exact Iff.rfl) (by rw [hpc]; simp [inFlight])
  · -- dropSwap
    rename_i hpc
    cases hstep
    exact dropSwap_ok h hpc
  · -- dropTake
    rename_i hpc
    cases hstep
    exact takeAndWake_ok h (by rw [hpc]; exact Iff.rfl) (by rw [hpc]; rfl)
  all_goals cases hstep

/-- A call of the sender begins. It has nothing in its hands yet. -/
theorem beginSender_ok (h : SpscOk s) (hstep : s.beginSender pc = some s') (hnot : ¬ Dropped pc)
    (hflight : inFlight pc = []) : SpscOk s' := by
  unfold beginSender at hstep
  split at hstep
  · rename_i hpc
    cases hstep
    refine h.gotoSender (by rw [hpc]; exact id) ?_ (by rw [hpc]; exact hflight)
    rw [hpc]
    exact iff_of_false hnot id
  · cases hstep

end Sender

/-! ### The steps of the receiver -/

section Receiver

variable {s s' : SpscSystem T P F size}

variable {pc : ReceiverPc P F} {store : AtomicWakerStore P} {waker : Waker P F}

/-- The receiver moves inside of a call. It may touch the store of its waker. -/
theorem SpscOk.gotoReceiver (h : SpscOk s) {woken : List (Waker P F)} (hidle : pc ≠ .idle)
    (hbefore : ¬ RecvDropped s.receiver) (hplace : PlaceOk { s with
      chan := { s.chan with wakerStore := store }, receiver := pc, woken }) :
    SpscOk { s with chan := { s.chan with wakerStore := store }, receiver := pc, woken } where
  gone := fun hdropped _ => h.gone hdropped hbefore
  present := fun hnot _ => h.present hnot hbefore
  place := hplace
  pended := fun _ heq => absurd heq hidle
  items := h.items
  ended := h.ended

/-- The receiver is dropped, and nothing is expected of the channel any more. -/
theorem SpscOk.leaves (h : SpscOk s) {state : UInt8} (hidle : pc ≠ .idle) (hgone : RecvDropped pc)
    (hplace : PlaceOk { s with
      chan := { s.chan with wakerStore := store, connectedState := state }, receiver := pc }) :
    SpscOk { s with
      chan := { s.chan with wakerStore := store, connectedState := state }, receiver := pc } where
  gone := fun _ hnot => absurd hgone hnot
  present := fun _ hnot => absurd hgone hnot
  place := hplace
  pended := fun _ heq => absurd heq hidle
  items := h.items
  ended := h.ended

/-- A poll returns `Pending`. -/
theorem pending_ok (h : SpscOk s) {woken : List (Waker P F)} (hbefore : ¬ RecvDropped s.receiver)
    (hquiet : store.data ≠ none → Quiet s)
    (hkept : ∀ p, waker.data = some p → store.data = some p ∨ createWaker p ∈ woken) :
    SpscOk ({ s with chan := { s.chan with wakerStore := store }, woken }.returns waker
      (.error .noData)) where
  gone := fun hdropped _ => h.gone hdropped hbefore
  present := fun hnot _ => h.present hnot hbefore
  place := hquiet
  pended := by
    intro w _ hlast
    cases hlast
    exact hkept
  items := h.items
  ended := h.ended

theorem not_recvDropped (hpc : s.receiver = pc) (hnot : ¬ RecvDropped pc) :
    ¬ RecvDropped s.receiver := by
  rw [hpc]
  exact hnot

/-- A poll takes a value out of the queue and returns it. -/
theorem pop_ok (h : SpscOk s) {v : T} {queue : SpscQueue T size} (hpc : s.receiver = .pop waker)
    (hpop : s.chan.queue.pop = some (v, queue)) :
    SpscOk ({ s with chan := { s.chan with queue } }.returns waker (.ok v)) := by
  have hitems := pop_items hpop
  have hbefore := not_recvDropped hpc id
  have hplace := h.place
  simp only [PlaceOk, hpc] at hplace
  constructor
  case gone => exact fun hdropped _ => h.gone hdropped hbefore
  case present => exact fun hnot _ => h.present hnot hbefore
  case place => exact fun hstore => absurd hplace.2 hstore
  case pended =>
    intro w _ hlast
    cases hlast
  case items =>
    have hold := h.items
    rw [hitems] at hold
    show s.received ++ [v] ++ queue.items = s.sent ++ inFlight s.sender
    rw [List.append_assoc]
    exact hold
  case ended =>
    intro hended
    exact absurd (h.ended hended).2 hplace.1

/-- A poll returns the end. Nothing is left in the queue, and the sender pushes nothing more. -/
theorem clear_ok (h : SpscOk s) (hpc : s.receiver = .clear waker) :
    SpscOk ({ s with chan := s.chan.clearWaker }.returns waker (.error .alreadyDone)) := by
  have hbefore := not_recvDropped hpc id
  have hplace := h.place
  simp only [PlaceOk, hpc] at hplace
  constructor
  case gone => exact fun hdropped _ => h.gone hdropped hbefore
  case present => exact fun hnot _ => h.present hnot hbefore
  case place => exact fun hstore => absurd rfl hstore
  case pended =>
    intro w _ hlast
    cases hlast
  case items => exact h.items
  case ended => exact fun _ => ⟨hplace.2, hplace.1⟩

/-- The steps of `receive` and of the drop of the receiver. -/
theorem stepReceiver_ok (h : SpscOk s) (hstep : s.stepReceiver = some s') : SpscOk s' := by
  have hplace := h.place
  unfold stepReceiver at hstep
  split at hstep
  · -- isEmpty
    rename_i waker hpc
    have hbefore := not_recvDropped hpc id
    simp only [PlaceOk, hpc] at hplace
    split at hstep <;> cases hstep
    · rename_i hempty
      refine h.gotoReceiver (by simp) hbefore fun hstore => ?_
      exact (hplace hstore).resolve_left (not_not_intro (isEmpty_iff.mp hempty))
    · rename_i hfull
      exact h.gotoReceiver (by simp) hbefore (mt isEmpty_iff.mpr hfull)
  · -- swap
    rename_i waker hpc
    have hbefore := not_recvDropped hpc id
    simp only [PlaceOk, hpc] at hplace
    dsimp only [AtomicWakerStore.swap] at hstep
    split at hstep <;> cases hstep
    · -- The old waker was still there, so the sender has not taken it since.
      rename_i hold
      have hstored : s.chan.wakerStore.data ≠ none := by
        rintro hnone
        rw [hnone] at hold
        cases hold
      exact pending_ok h hbefore (fun _ => hplace hstored) fun p hp => Or.inl hp
    · exact h.gotoReceiver (by simp) hbefore fun p hp => Or.inl hp
  · -- load
    rename_i waker hpc
    have hbefore := not_recvDropped hpc id
    simp only [PlaceOk, hpc] at hplace
    cases hstep
    refine h.gotoReceiver (by simp) hbefore ⟨hplace, fun hgone => ?_, fun hstate _ => Or.inl ?_⟩
    · by_contra hnot
      rw [h.present hnot hbefore] at hgone
      exact absurd hgone (by decide)
    · by_contra hboth
      exact hstate (h.gone (by_contra fun hnot => hboth (h.present hnot hbefore)) hbefore)
  · -- recheck
    rename_i waker state hpc
    have hbefore := not_recvDropped hpc id
    simp only [PlaceOk, hpc] at hplace
    obtain ⟨hkept, hgone, hconn⟩ := hplace
    split at hstep
    · rename_i hempty
      have hnil := isEmpty_iff.mp hempty
      split at hstep <;> cases hstep
      · rename_i hstate
        exact h.gotoReceiver (by simp) hbefore ⟨hnil, hgone hstate⟩
      · rename_i hstate
        exact pending_ok h hbefore (fun hstore => (hconn hstate hstore).imp_left (⟨hnil, ·⟩)) hkept
    · rename_i hfull
      cases hstep
      exact h.gotoReceiver (by simp) hbefore fun _ => Or.inl (mt isEmpty_iff.mpr hfull)
  · -- clear
    rename_i waker hpc
    cases hstep
    exact clear_ok h hpc
  · -- take
    rename_i waker hpc
    have hbefore := not_recvDropped hpc id
    simp only [PlaceOk, hpc] at hplace
    cases hstep
    exact h.gotoReceiver (by simp) hbefore ⟨hplace, rfl⟩
  · -- pop
    rename_i waker hpc
    split at hstep <;> cases hstep
    · rename_i v queue hpop
      exact pop_ok h hpc hpop
    · rename_i hpop
      simp only [PlaceOk, hpc] at hplace
      exact absurd (pop_eq_none_iff.mp hpop) hplace.1
  · -- dropStore
    cases hstep
    exact h.leaves (by simp) trivial trivial
  · -- dropTake
    cases hstep
    exact h.leaves (by simp) trivial trivial
  all_goals cases hstep

end Receiver

/-! ### Runs -/

section Runs

variable {s s' : SpscSystem T P F size}

/-- Every step keeps `SpscOk`. -/
theorem spscStep_ok {a : SpscAction T P F} (h : SpscOk s) (hstep : s.step a = some s') :
    SpscOk s' := by
  cases a with
  | send v => exact beginSender_ok h hstep id rfl
  | dropSender => exact beginSender_ok h hstep id rfl
  | sender => exact stepSender_ok h hstep
  | recv =>
      simp only [step, whenIdle] at hstep
      split at hstep <;> cases hstep
      exact ⟨h.gone, h.present, h.place, h.pended, h.items, h.ended⟩
  | poll waker =>
      simp only [step, whenIdle] at hstep
      split at hstep
      · rename_i hpc
        have hplace := h.place
        simp only [PlaceOk, hpc] at hplace
        split at hstep <;> cases hstep
        exact h.gotoReceiver (by simp) (by rw [hpc]; exact id) fun hstore => Or.inr (hplace hstore)
      · cases hstep
  | receiver => exact stepReceiver_ok h hstep
  | dropReceiver =>
      simp only [step, whenIdle] at hstep
      split at hstep <;> cases hstep
      rename_i hpc
      exact h.gotoReceiver (by simp) (by rw [hpc]; exact id) trivial

theorem spscOk_of_reaches (hrun : Reaches SpscSystem.step anyStep SpscSystem.new s) : SpscOk s :=
  hrun.invariant spscOk_new fun _ _ _ h _ hstep => spscStep_ok h hstep

/-- What `recv` has returned is a prefix of what was accepted, and it has returned `None` only after
the sender was dropped and everything was returned. A `send` that is past its push returns `Ok`. -/
theorem spsc_lossless_fifo (hrun : Reaches SpscSystem.step anyStep SpscSystem.new s) :
    s.received <+: s.sent ++ inFlight s.sender ∧
      (s.ended = true → Dropped s.sender ∧ s.received = s.sent) := by
  have h := spscOk_of_reaches hrun
  refine ⟨⟨s.chan.queue.items, h.items⟩, fun hended => ?_⟩
  obtain ⟨hdropped, hempty⟩ := h.ended hended
  refine ⟨hdropped, ?_⟩
  have hitems := h.items
  have hflight : inFlight s.sender = [] := by
    cases hpc : s.sender <;> simp_all [Dropped, inFlight]
  rwa [hempty, hflight, List.append_nil, List.append_nil] at hitems

/-- Two values are sent, the sender is dropped, and the receiver sees both and then the end. -/
theorem spsc_lossless_fifo_two :
    ∃ s : SpscSystem Nat Nat Empty 2, Reaches SpscSystem.step anyStep .new s ∧
      s.ended = true ∧ s.sent = [1, 2] ∧ s.received = [1, 2] := by
  have hexists : ∃ s : SpscSystem Nat Nat Empty 2, Reaches SpscSystem.step anyStep .new s ∧
      s.ended = true ∧ s.sent = [1, 2] :=
    exists_reaches
      ([SpscAction.send 1, .sender, .sender, .sender, .send 2, .sender, .sender, .sender,
          .dropSender, .sender, .sender] ++
        [SpscAction.poll (createWaker 7), .receiver, .receiver, .receiver, .recv,
          .poll (createWaker 7), .receiver, .receiver, .receiver, .recv] ++
        [SpscAction.poll (createWaker 7), .receiver, .receiver, .receiver, .receiver, .receiver])
      (by decide)
  obtain ⟨s, hrun, hended, hsent⟩ := hexists
  exact ⟨s, hrun, hended, hsent, ((spsc_lossless_fifo hrun).2 hended).2.trans hsent⟩

end Runs

/-! ### Calls that are not interrupted -/

section Alone

variable (s : SpscSystem T P F size)

@[simp]
theorem returns_receiver (waker : Waker P F) (result : Except CommonErrors T) :
    (s.returns waker result).receiver = .idle := by
  unfold returns
  dsimp only
  split <;> rfl

@[simp]
theorem returns_chan (waker : Waker P F) (result : Except CommonErrors T) :
    (s.returns waker result).chan = s.chan := by
  unfold returns
  dsimp only
  split <;> rfl

@[simp]
theorem returns_lastPoll (waker : Waker P F) (result : Except CommonErrors T) :
    (s.returns waker result).lastPoll = some (waker, (receiverFutureReturn result).toPoll) := by
  unfold returns
  dsimp only
  split <;> rfl

/-- Only the receiver runs. -/
def ReceiverAlone (_ : SpscSystem T P F size) : SpscAction T P F → Prop
  | .poll _ | .receiver => True
  | _ => False

instance : (a : SpscAction T P F) → Decidable (ReceiverAlone s a)
  | .poll _ | .receiver => .isTrue trivial
  | .send _ | .dropSender | .sender | .recv | .dropReceiver => .isFalse id

/-- Only the sender runs. -/
def SenderAlone (_ : SpscSystem T P F size) : SpscAction T P F → Prop
  | .send _ | .dropSender | .sender => True
  | _ => False

instance : (a : SpscAction T P F) → Decidable (SenderAlone s a)
  | .send _ | .dropSender | .sender => .isTrue trivial
  | .poll _ | .receiver | .recv | .dropReceiver => .isFalse id

/-- Without steps of the sender in between, a poll is `receive` of the sequential model. -/
theorem receive_alone (waker : Waker P F) (hidle : s.receiver = .idle)
    (hfuture : s.future ≠ .finished) :
    ∃ s', Reaches SpscSystem.step ReceiverAlone s s' ∧ s'.receiver = .idle ∧
      s'.chan = (s.chan.receive waker).1 ∧
      s'.lastPoll = some (waker, (receiverFutureReturn (s.chan.receive waker).2).toPoll) := by
  have hempty := isEmpty_eq_isNone_pop s.chan.queue
  cases hpop : s.chan.queue.pop with
  | some r =>
      apply exists_reaches [.poll waker, .receiver, .receiver, .receiver]
      simp [runActions, ReceiverAlone, step, whenIdle, hidle, hfuture,
        stepReceiver, hempty, hpop, clearWaker, receive]
  | none =>
      cases hstore : s.chan.wakerStore.data with
      | some p =>
          apply exists_reaches [.poll waker, .receiver, .receiver]
          simp [runActions, ReceiverAlone, step, whenIdle, hidle, hfuture,
            stepReceiver, hempty, hpop, receive, AtomicWakerStore.swap, hstore]
      | none =>
          by_cases hgone : s.chan.connectedState = senderGone
          · apply exists_reaches [.poll waker, .receiver, .receiver, .receiver, .receiver,
              .receiver]
            simp [runActions, ReceiverAlone, step, whenIdle, hidle, hfuture, stepReceiver, hempty,
              hpop, receive, AtomicWakerStore.swap, hstore, hgone, clearWaker]
          · apply exists_reaches [.poll waker, .receiver, .receiver, .receiver, .receiver]
            simp [runActions, ReceiverAlone, step, whenIdle, hidle, hfuture, stepReceiver, hempty,
              hpop, receive, AtomicWakerStore.swap, hstore, hgone]

/-- Without steps of the receiver in between, a `send` is that of the sequential model. -/
theorem send_alone (v : T) (hidle : s.sender = .idle) :
    ∃ s', Reaches SpscSystem.step SenderAlone s s' ∧ s'.sender = .idle ∧
      s'.chan = (s.chan.send (F := F) v).1 ∧
      s'.sent = s.sent ++ (if (s.chan.send (F := F) v).2.1 matches .ok _ then [v] else []) ∧
      s'.woken = (s.chan.send v).2.2.toList ++ s.woken := by
  by_cases hgone : s.chan.connectedState = recvGone
  · apply exists_reaches [.send v, .sender]
    simp [runActions, SenderAlone, step, beginSender, hidle, stepSender, hgone, send]
  · cases hpush : s.chan.queue.push v with
    | none =>
        apply exists_reaches [.send v, .sender, .sender]
        simp [runActions, SenderAlone, step, beginSender, hidle, stepSender, hgone, hpush, send]
    | some queue =>
        apply exists_reaches [.send v, .sender, .sender, .sender]
        simp [runActions, SenderAlone, step, beginSender, hidle,
          stepSender, hgone, hpush, send, takeAndWake]

/-- The same for the drop of the sender. -/
theorem senderDropping_alone (hidle : s.sender = .idle) :
    ∃ s', Reaches SpscSystem.step SenderAlone s s' ∧ s'.sender = .gone ∧
      s'.chan = (s.chan.senderDropping (F := F)).1 ∧
      s'.woken = s.chan.senderDropping.2.toList ++ s.woken := by
  by_cases hboth : s.chan.connectedState = bothIn
  · apply exists_reaches [.dropSender, .sender, .sender]
    simp [runActions, SenderAlone, step, beginSender, hidle,
      stepSender, hboth, senderDropping, takeAndWake]
  · apply exists_reaches [.dropSender, .sender]
    simp [runActions, SenderAlone, step, beginSender, hidle, stepSender, hboth, senderDropping]

end Alone

end Kyron.Proofs.Channels
