import Kyron.Proofs.Channels.BroadcastSlots

/-!
# `Kyron.Proofs.Channels.Broadcast`: what the receivers of a broadcast channel get

While the sender is there, every `send` reaches the receivers with room, and a new receiver starts
with an empty queue. After the sender the state byte of a slot no longer says everything. It can
say that the sender is gone or that the receiver is gone, not both, and the last one to leave
decides. A clone in a slot that was left before the sender finds the old values, and a clone in a
slot that was left after the sender does not learn that the sender is gone.
-/

set_option autoImplicit false

namespace Kyron.Proofs.Channels

open Kyron.Channels
open Kyron.Futures
open Kyron.Lib
open Kyron.Scheduler
open Function
open Broadcast

variable {n size : Nat} {T P F : Type}

/-! ### A receiver learns that the sender is gone -/

section End

variable {s s' : Broadcast n T P size}

/-- The condition on a step: after the sender, no slot is handed out again that was left after the
sender. -/
def KeepsEnd (s : Broadcast n T P size) : BroadcastAction n T P F → Prop
  | .tryClone _ (some slot) =>
      s.sender = false → (s.chan.channels slot).connectedState ≠ recvGone
  | _ => True

instance (s : Broadcast n T P size) : (a : BroadcastAction n T P F) → Decidable (KeepsEnd s a)
  | .tryClone _ (some _) => inferInstanceAs (Decidable (_ → _))
  | .tryClone _ none | .subscribe _ | .send _ | .recv .. | .dropReceiver _ | .dropSender =>
      .isTrue trivial

/-- After the sender every slot says that the sender is gone, or it was left since then. -/
def EndOk (s : Broadcast n T P size) : Prop :=
  s.sender = false → ∀ i, (s.chan.channels i).wakerStore.data = none ∧
    ((s.chan.channels i).connectedState = senderGone ∨
      s.live i = false ∧ (s.chan.channels i).connectedState = recvGone)

theorem senderDropping_queue (s : Broadcast n T P size) (i : Fin n) :
    (s.chan.senderDropping.channels i).queue = (s.chan.channels i).queue := by
  show ((s.chan.channels i).senderDropping (F := Empty)).1.queue = _
  unfold Channel.senderDropping
  dsimp only
  split <;> rfl

/-- The drop of the sender takes every stored waker and marks every slot. -/
theorem senderDropping_endOk (h : SlotsOk s) (hsender : s.sender = true) (i : Fin n) :
    (s.chan.senderDropping.channels i).wakerStore.data = none ∧
      (s.chan.senderDropping.channels i).connectedState = senderGone := by
  show ((s.chan.channels i).senderDropping (F := Empty)).1.wakerStore.data = none ∧
    ((s.chan.channels i).senderDropping (F := Empty)).1.connectedState = senderGone
  unfold Channel.senderDropping
  dsimp only
  split
  · exact ⟨rfl, rfl⟩
  · -- A receiver that is there is notified, and one that has left has taken its waker along.
    rename_i hstate
    refine ⟨h.store hsender i ?_, rfl⟩
    rw [Bool.eq_false_iff]
    exact fun hlive => hstate (h.state_of_live hsender hlive)

/-- A new receiver after the sender has to find the end in its slot. -/
theorem EndOk.addReceiver (h : EndOk s) {slot : Fin n}
    (hkeeps : s.sender = false → (s.chan.channels slot).connectedState ≠ recvGone) :
    EndOk (s.addReceiver slot) := by
  intro hsender i
  have hsender : s.sender = false := hsender
  rw [addReceiver_channels, addReceiver_live]
  by_cases hi : i = slot
  · subst hi
    obtain ⟨hstore, hstate⟩ := h hsender i
    have hgone := hstate.resolve_right fun hleft => hkeeps hsender hleft.2
    rw [update_self, enableReceiver_of_present (Or.inr hgone)]
    exact ⟨hstore, Or.inl hgone⟩
  · rw [update_of_ne hi, update_of_ne hi]
    exact h hsender i

/-- Every move keeps `EndOk`, under the condition on `try_clone`. -/
theorem EndOk.move {a : BroadcastAction n T P F} (h : EndOk s) (hslots : SlotsOk s)
    (hkeeps : KeepsEnd s a) (hmove : Moves s a s') : EndOk s' := by
  cases hmove with
  | refused => exact h
  | subscribed hsender hoffers =>
      refine h.addReceiver fun hgone => ?_
      rw [hsender] at hgone
      cases hgone
  | cloned hlive hoffers => exact h.addReceiver hkeeps
  | sent hsender hsend =>
      intro hgone
      cases hsender.symm.trans hgone
  | @received receiver waker hlive =>
      intro hsender i
      by_cases hi : i = receiver
      · subst hi
        obtain ⟨hstore, hstate⟩ := h hsender i
        have hgone := hstate.resolve_right fun hleft => by
          rw [hlive] at hleft
          cases hleft.1
        rw [recv_channels, update_self]
        refine ⟨?_, Or.inl ((receive_connectedState waker).trans hgone)⟩
        cases hitems : (s.chan.channels i).queue.items with
        | nil =>
            obtain ⟨store, hreceive, hnone⟩ := receive_of_nil waker hitems
            rw [hreceive]
            exact hnone hstore hgone
        | cons sample rest =>
            obtain ⟨queue, -, hreceive⟩ := receive_of_cons waker hitems
            rw [hreceive]
            rfl
      · rw [recv_channels, update_of_ne hi]
        exact h hsender i
  | @left receiver hlive =>
      intro hsender i
      rw [removeReceiver_channels, removeReceiver_live]
      by_cases hi : i = receiver
      · subst hi
        rw [update_self, update_self]
        exact ⟨rfl, Or.inr ⟨rfl, rfl⟩⟩
      · rw [update_of_ne hi, update_of_ne hi]
        exact h hsender i
  | ended hsender =>
      intro _ i
      obtain ⟨hstore, hstate⟩ := senderDropping_endOk hslots hsender i
      exact ⟨hstore, Or.inl hstate⟩

theorem createChannel_sender {maxNumOfReceivers : UInt16}
    {s : Broadcast maxNumOfReceivers.toNat T P size}
    (h : Broadcast.createChannel maxNumOfReceivers = some s) : s.sender = true := by
  unfold createChannel at h
  split at h <;> cases h
  rfl

/-- After the sender, a receiver that has read its queue gets the end. A slot that was left after
the sender must not be handed out again. -/
theorem broadcast_receivers_see_end {maxNumOfReceivers : UInt16}
    {s₀ s : Broadcast maxNumOfReceivers.toNat T P size}
    (hcreate : Broadcast.createChannel maxNumOfReceivers = some s₀)
    (hrun : Reaches (Broadcast.step (F := F)) KeepsEnd s₀ s) (hsender : s.sender = false)
    {receiver : Fin maxNumOfReceivers.toNat} (hlive : s.live receiver = true)
    (waker : Waker P F) :
    (s.queue receiver = [] → (s.chan.recv receiver waker).2 = .ready none) ∧
      (∀ sample rest, s.queue receiver = sample :: rest →
        (s.chan.recv receiver waker).2 = .ready (some sample) ∧
          ((s.chan.recv receiver waker).1.channels receiver).queue.items = rest) := by
  have hstart : EndOk s₀ := by
    intro hgone
    rw [createChannel_sender hcreate] at hgone
    cases hgone
  have hok : SlotsOk s ∧ EndOk s := by
    refine hrun.invariant (I := fun s => SlotsOk s ∧ EndOk s)
      ⟨slotsOk_createChannel hcreate, hstart⟩ ?_
    intro s a s' ⟨hslots, hend⟩ hkeeps hstep
    have hmove := moves_of_step hstep
    exact ⟨hslots.move hmove, hend.move hslots hkeeps hmove⟩
  obtain ⟨hstore, hstate⟩ := hok.2 hsender receiver
  have hgone := hstate.resolve_right fun hleft => by
    rw [hlive] at hleft
    cases hleft.1
  refine ⟨fun hnil => ?_, fun sample rest hcons => recv_of_cons hcons waker⟩
  rw [(recv_of_nil hnil waker).1, if_pos ⟨hstore, hgone⟩]

/-- A receiver reads its last value after the sender has gone, and then sees the end. -/
theorem broadcast_receivers_see_end_drained :
    ∃ s₀ s : Broadcast (UInt16.toNat 2) Nat Nat 4, Broadcast.createChannel 2 = some s₀ ∧
      Reaches (Broadcast.step (F := Empty)) KeepsEnd s₀ s ∧ s.sender = false ∧
      (s.logs ⟨1, by decide⟩).received = [⟨0, 5⟩] ∧
      (s.chan.recv ⟨1, by decide⟩ (createWaker (F := Empty) 7)).2 = .ready none := by
  have hexists : ∃ s : Broadcast (UInt16.toNat 2) Nat Nat 4,
      Reaches (Broadcast.step (F := Empty)) KeepsEnd (Broadcast.new.addReceiver ⟨0, by decide⟩) s ∧
        s.sender = false ∧ s.live ⟨1, by decide⟩ = true ∧ s.queue ⟨1, by decide⟩ = [] ∧
        (s.logs ⟨1, by decide⟩).received = [⟨0, 5⟩] :=
    exists_reaches [BroadcastAction.subscribe (some ⟨1, by decide⟩), .send 5, .dropSender,
      .recv ⟨1, by decide⟩ (createWaker 7)] (by decide)
  obtain ⟨s, hrun, hsender, hlive, hqueue, hreceived⟩ := hexists
  exact ⟨_, s, rfl, hrun, hsender, hreceived,
    (broadcast_receivers_see_end rfl hrun hsender hlive _).1 hqueue⟩

/-- A receiver leaves after the sender, its slot goes to a clone, and the clone waits for ever. -/
theorem broadcast_clone_misses_end :
    ∃ s₀ s : Broadcast (UInt16.toNat 2) Nat Nat 4, Broadcast.createChannel 2 = some s₀ ∧
      Reaches (Broadcast.step (F := Empty)) anyStep s₀ s ∧ s.sender = false ∧
      s.live ⟨1, by decide⟩ = true ∧ s.queue ⟨1, by decide⟩ = [] ∧
      (s.chan.recv ⟨1, by decide⟩ (createWaker (F := Empty) 7)).2 = .pending := by
  refine ⟨Broadcast.new.addReceiver ⟨0, by decide⟩, ?_⟩
  have hexists : ∃ s : Broadcast (UInt16.toNat 2) Nat Nat 4,
      Reaches (Broadcast.step (F := Empty)) anyStep (Broadcast.new.addReceiver ⟨0, by decide⟩) s ∧
        s.sender = false ∧ s.live ⟨1, by decide⟩ = true ∧ s.queue ⟨1, by decide⟩ = [] ∧
        (s.chan.recv ⟨1, by decide⟩ (createWaker (F := Empty) 7)).2 = .pending :=
    exists_reaches [BroadcastAction.subscribe (some ⟨1, by decide⟩), .dropSender,
      .dropReceiver ⟨1, by decide⟩, .tryClone ⟨0, by decide⟩ (some ⟨1, by decide⟩)] (by decide)
  obtain ⟨s, hrun, hend⟩ := hexists
  exact ⟨s, rfl, hrun, hend⟩

end End

/-! ### A receiver gets no value from before its subscription -/

section Fresh

variable {s s' : Broadcast n T P size}

/-- The condition on a step: after the sender, a slot that is handed out again was left after the
sender, or its queue is empty. -/
def KeepsFresh (s : Broadcast n T P size) : BroadcastAction n T P F → Prop
  | .tryClone _ (some slot) =>
      s.sender = false → (s.chan.channels slot).connectedState = recvGone ∨ s.queue slot = []
  | _ => True

instance (s : Broadcast n T P size) : (a : BroadcastAction n T P F) → Decidable (KeepsFresh s a)
  | .tryClone _ (some _) => inferInstanceAs (Decidable (_ → _ ∨ _))
  | .tryClone _ none | .subscribe _ | .send _ | .recv .. | .dropReceiver _ | .dropSender =>
      .isTrue trivial

/-- Nothing that a receiver got or has in its queue is older than its subscription. -/
structure FreshOk (s : Broadcast n T P size) : Prop where
  since_le : ∀ i, (s.logs i).since ≤ s.sends
  values : ∀ i, s.live i = true → ∀ sample ∈ (s.logs i).received ++ s.queue i,
    (s.logs i).since ≤ sample.number

theorem addReceiver_log (s : Broadcast n T P size) (slot : Fin n) :
    (s.addReceiver slot).logs slot = { since := s.sends, delivered := [], received := [] } :=
  update_self ..

/-- A new receiver changes nothing for the others. -/
theorem addReceiver_other {slot i : Fin n} (h : i ≠ slot) :
    (s.addReceiver slot).live i = s.live i ∧ (s.addReceiver slot).queue i = s.queue i ∧
      (s.addReceiver slot).logs i = s.logs i := by
  refine ⟨update_of_ne h .., ?_, update_of_ne h ..⟩
  rw [queue, addReceiver_channels, update_of_ne h]
  rfl

theorem addReceiver_queue (s : Broadcast n T P size) (slot : Fin n) :
    (s.addReceiver slot).queue slot = (s.chan.channels slot).enableReceiver.queue.items := by
  rw [queue, addReceiver_channels, update_self]

/-- A new receiver begins with an empty queue and an empty history. -/
theorem FreshOk.addReceiver (h : FreshOk s) {slot : Fin n}
    (hempty : (s.chan.channels slot).enableReceiver.queue.items = []) :
    FreshOk (s.addReceiver slot) := by
  constructor
  case since_le =>
    intro i
    by_cases hi : i = slot
    · rw [hi, addReceiver_log]
      exact le_rfl
    · rw [(addReceiver_other hi).2.2]
      exact h.since_le i
  case values =>
    intro i hlive sample hmem
    by_cases hi : i = slot
    · rw [hi, addReceiver_queue, addReceiver_log, hempty] at hmem
      cases hmem
    · obtain ⟨hsame, hqueue, hlog⟩ := addReceiver_other (s := s) hi
      rw [hsame] at hlive
      rw [hqueue, hlog] at hmem
      rw [hlog]
      exact h.values i hlive sample hmem

/-- A slot is emptied if its last receiver was dropped. Otherwise it was empty. -/
theorem enableReceiver_empty {c : Channel T P size}
    (h : c.connectedState = recvGone ∨ c.queue.items = []) :
    c.enableReceiver.queue.items = [] := by
  rcases h with hgone | hnil
  · rw [enableReceiver_of_recvGone hgone]
    rfl
  · unfold Channel.enableReceiver
    split
    · rfl
    · exact hnil

/-- Every move keeps `FreshOk`, under the condition on `try_clone`. -/
theorem FreshOk.move {a : BroadcastAction n T P F} (h : FreshOk s) (hslots : SlotsOk s)
    (hkeeps : KeepsFresh s a) (hmove : Moves s a s') : FreshOk s' := by
  cases hmove with
  | refused => exact h
  | subscribed hsender hoffers => exact h.addReceiver (hslots.enabled hsender hoffers).1
  | cloned hlive hoffers =>
      cases hsender : s.sender with
      | true => exact h.addReceiver (hslots.enabled hsender hoffers).1
      | false => exact h.addReceiver (enableReceiver_empty (hkeeps hsender))
  | @sent v chan ret woken hsender hsend =>
      constructor
      case since_le =>
        intro i
        exact (logSend_since s _ i).le.trans ((h.since_le i).trans (Nat.le_succ _))
      case values =>
        intro i hlive sample hmem
        refine (logSend_since s _ i).le.trans ?_
        rw [queue, hslots.send_queue hsender hsend i, logSend_received] at hmem
        split at hmem
        · rw [← List.append_assoc] at hmem
          rcases List.mem_append.mp hmem with hold | hnew
          · exact h.values i hlive sample hold
          · -- The new value has the number of this `send`.
            rw [List.mem_singleton.mp hnew]
            exact h.since_le i
        · exact h.values i hlive sample hmem
  | @received receiver waker hlive =>
      constructor
      case since_le =>
        intro i
        exact (recv_conserves s receiver i waker).1.le.trans (h.since_le i)
      case values =>
        intro i hi sample hmem
        obtain ⟨hsince, -, hvalues⟩ := recv_conserves s receiver i waker
        refine hsince.le.trans (h.values i hi sample ?_)
        rw [← hvalues]
        exact hmem
  | @left receiver hlive =>
      refine ⟨h.since_le, fun i hi sample hmem => ?_⟩
      obtain ⟨hlive, hqueue⟩ := live_of_removeReceiver hi
      rw [hqueue] at hmem
      exact h.values i hlive sample hmem
  | ended hsender =>
      refine ⟨h.since_le, fun i hi sample hmem => h.values i hi sample ?_⟩
      rwa [queue, senderDropping_queue] at hmem

/-- A new channel has neither values nor a history. -/
theorem createChannel_logs {maxNumOfReceivers : UInt16}
    {s : Broadcast maxNumOfReceivers.toNat T P size}
    (h : Broadcast.createChannel maxNumOfReceivers = some s) (i : Fin maxNumOfReceivers.toNat) :
    s.queue i = [] ∧ s.logs i = { since := 0, delivered := [], received := [] } := by
  unfold createChannel at h
  split at h
  · rename_i hpos
    cases h
    by_cases hi : i = ⟨0, hpos⟩
    · rw [hi, addReceiver_queue, addReceiver_log]
      exact ⟨enableReceiver_empty (Or.inr rfl), rfl⟩
    · obtain ⟨-, hqueue, hlog⟩ := addReceiver_other hi
      rw [hqueue, hlog]
      exact ⟨rfl, rfl⟩
  · cases h

/-- What `recv` returns was sent after the receiver subscribed: the number of its `send` is not
below the number of sends that were complete then. -/
theorem broadcast_no_earlier_value {maxNumOfReceivers : UInt16}
    {s₀ s : Broadcast maxNumOfReceivers.toNat T P size}
    (hcreate : Broadcast.createChannel maxNumOfReceivers = some s₀)
    (hrun : Reaches (Broadcast.step (F := F)) KeepsFresh s₀ s)
    {receiver : Fin maxNumOfReceivers.toNat} (hlive : s.live receiver = true)
    (waker : Waker P F) :
    (∀ sample ∈ (s.logs receiver).received, (s.logs receiver).since ≤ sample.number) ∧
      ∀ sample, (s.chan.recv receiver waker).2 = .ready (some sample) →
        (s.logs receiver).since ≤ sample.number := by
  have hstart : FreshOk s₀ := by
    constructor
    case since_le =>
      intro i
      rw [(createChannel_logs hcreate i).2]
      exact Nat.zero_le _
    case values =>
      intro i _ sample hmem
      obtain ⟨hqueue, hlog⟩ := createChannel_logs hcreate i
      rw [hqueue, hlog] at hmem
      cases hmem
  have hok : SlotsOk s ∧ FreshOk s := by
    refine hrun.invariant (I := fun s => SlotsOk s ∧ FreshOk s)
      ⟨slotsOk_createChannel hcreate, hstart⟩ ?_
    intro s a s' ⟨hslots, hfresh⟩ hkeeps hstep
    have hmove := moves_of_step hstep
    exact ⟨hslots.move hmove, hfresh.move hslots hkeeps hmove⟩
  have hvalues := hok.2.values receiver hlive
  refine ⟨fun sample hmem => hvalues sample (List.mem_append_left _ hmem), fun sample hrecv => ?_⟩
  cases hqueue : s.queue receiver with
  | nil =>
      rw [(recv_of_nil hqueue waker).1] at hrecv
      split at hrecv <;> cases hrecv
  | cons head rest =>
      rw [(recv_of_cons hqueue waker).1] at hrecv
      cases hrecv
      refine hvalues sample (List.mem_append_right _ ?_)
      rw [hqueue]
      exact List.mem_cons_self

/-- A receiver that takes the slot of one that left unread values behind gets a later value. -/
theorem broadcast_no_earlier_value_reused :
    ∃ s₀ s : Broadcast (UInt16.toNat 2) Nat Nat 4, Broadcast.createChannel 2 = some s₀ ∧
      Reaches (Broadcast.step (F := Empty)) KeepsFresh s₀ s ∧
      (s.logs ⟨1, by decide⟩).received = [⟨1, 6⟩] ∧
      ∀ sample ∈ (s.logs ⟨1, by decide⟩).received,
        (s.logs ⟨1, by decide⟩).since ≤ sample.number := by
  have hexists : ∃ s : Broadcast (UInt16.toNat 2) Nat Nat 4,
      Reaches (Broadcast.step (F := Empty)) KeepsFresh (Broadcast.new.addReceiver ⟨0, by decide⟩)
          s ∧
        s.live ⟨1, by decide⟩ = true ∧ (s.logs ⟨1, by decide⟩).received = [⟨1, 6⟩] :=
    exists_reaches [BroadcastAction.subscribe (some ⟨1, by decide⟩), .send 5,
      .dropReceiver ⟨1, by decide⟩, .tryClone ⟨0, by decide⟩ (some ⟨1, by decide⟩), .send 6,
      .recv ⟨1, by decide⟩ (createWaker 7)] (by decide)
  obtain ⟨s, hrun, hlive, hreceived⟩ := hexists
  exact ⟨_, s, rfl, hrun, hreceived, (broadcast_no_earlier_value rfl hrun hlive (createWaker 7)).1⟩

/-- The sender goes after a receiver with an unread value, and the clone in that slot gets it. -/
theorem broadcast_clone_gets_earlier_value :
    ∃ s₀ s : Broadcast (UInt16.toNat 2) Nat Nat 4, Broadcast.createChannel 2 = some s₀ ∧
      Reaches (Broadcast.step (F := Empty)) anyStep s₀ s ∧ s.live ⟨1, by decide⟩ = true ∧
      (s.logs ⟨1, by decide⟩).since = 1 ∧
      (s.chan.recv ⟨1, by decide⟩ (createWaker (F := Empty) 7)).2 = .ready (some ⟨0, 5⟩) := by
  have hexists : ∃ s : Broadcast (UInt16.toNat 2) Nat Nat 4,
      Reaches (Broadcast.step (F := Empty)) anyStep (Broadcast.new.addReceiver ⟨0, by decide⟩) s ∧
        s.live ⟨1, by decide⟩ = true ∧ (s.logs ⟨1, by decide⟩).since = 1 ∧
        (s.chan.recv ⟨1, by decide⟩ (createWaker (F := Empty) 7)).2 = .ready (some ⟨0, 5⟩) :=
    exists_reaches [BroadcastAction.subscribe (some ⟨1, by decide⟩), .send 5,
      .dropReceiver ⟨1, by decide⟩, .dropSender,
      .tryClone ⟨0, by decide⟩ (some ⟨1, by decide⟩)] (by decide)
  obtain ⟨s, hrun, hend⟩ := hexists
  exact ⟨_, s, rfl, hrun, hend⟩

end Fresh

/-! ### What `send` delivers while the sender is there -/

section Delivery

variable {s s' : Broadcast n T P size}

/-- The sender stays. -/
def SenderStays (_ : Broadcast n T P size) : BroadcastAction n T P F → Prop
  | .dropSender => False
  | _ => True

instance (s : Broadcast n T P size) : (a : BroadcastAction n T P F) → Decidable (SenderStays s a)
  | .dropSender => .isFalse id
  | .subscribe _ | .tryClone .. | .send _ | .recv .. | .dropReceiver _ => .isTrue trivial

/-- A receiver has got, or has in its queue, what was delivered to it. -/
def LogsOk (s : Broadcast n T P size) : Prop :=
  ∀ i, s.live i = true → (s.logs i).received ++ s.queue i = (s.logs i).delivered

theorem Moves.sender_stays {a : BroadcastAction n T P F} (h : Moves s a s')
    (hstays : SenderStays s a) (hsender : s.sender = true) : s'.sender = true := by
  cases h with
  | ended => exact hstays.elim
  | _ => exact hsender

/-- The history of a slot starts again with its new receiver. -/
theorem LogsOk.addReceiver (h : LogsOk s) {slot : Fin n}
    (hempty : (s.chan.channels slot).enableReceiver.queue.items = []) :
    LogsOk (s.addReceiver slot) := by
  intro i hlive
  by_cases hi : i = slot
  · rw [hi, addReceiver_queue, addReceiver_log, hempty]
    rfl
  · obtain ⟨hsame, hqueue, hlog⟩ := addReceiver_other (s := s) hi
    rw [hsame] at hlive
    rw [hqueue, hlog]
    exact h i hlive

/-- While the sender is there, every move keeps `LogsOk`. -/
theorem LogsOk.move {a : BroadcastAction n T P F} (h : LogsOk s) (hslots : SlotsOk s)
    (hsender : s.sender = true) (hmove : Moves s a s') : LogsOk s' := by
  cases hmove with
  | refused => exact h
  | subscribed _ hoffers => exact h.addReceiver (hslots.enabled hsender hoffers).1
  | cloned _ hoffers => exact h.addReceiver (hslots.enabled hsender hoffers).1
  | @sent v chan ret woken _ hsend =>
      intro i hlive
      have hlive : s.live i = true := hlive
      have hold := h i hlive
      rw [queue, hslots.send_queue hsender hsend i]
      show (s.logSend ⟨s.sends, v⟩ i).received ++ _ = (s.logSend ⟨s.sends, v⟩ i).delivered
      by_cases hroom : (s.queue i).length < size
      · have hlog : s.logSend ⟨s.sends, v⟩ i =
            { s.logs i with delivered := (s.logs i).delivered ++ [⟨s.sends, v⟩] } :=
          if_pos (by simp [hlive, hroom])
        rw [if_pos ⟨hlive, hroom⟩, hlog, ← hold]
        exact (List.append_assoc _ _ _).symm
      · have hlog : s.logSend ⟨s.sends, v⟩ i = s.logs i := if_neg (by simp [hroom])
        rw [if_neg (fun hboth => hroom hboth.2), hlog]
        exact hold
  | @received receiver waker hlive =>
      intro i hi
      obtain ⟨-, hdelivered, hvalues⟩ := recv_conserves s receiver i waker
      refine hvalues.trans ((h i hi).trans hdelivered.symm)
  | @left receiver hlive =>
      intro i hi
      obtain ⟨hlive, hqueue⟩ := live_of_removeReceiver hi
      rw [hqueue]
      exact h i hlive
  | ended _ =>
      intro i hi
      rw [queue, senderDropping_queue]
      exact h i hi

/-- While the sender is there, a `recv` of a receiver waits exactly when its queue is empty, and
otherwise takes the oldest value. -/
theorem SlotsOk.recv_live (h : SlotsOk s) (hsender : s.sender = true) {i : Fin n}
    (hlive : s.live i = true) (waker : Waker P F) :
    (s.queue i = [] → (s.chan.recv i waker).2 = .pending ∧
      ((s.chan.recv i waker).1.channels i).queue.items = []) ∧
    ∀ sample rest, s.queue i = sample :: rest →
      (s.chan.recv i waker).2 = .ready (some sample) ∧
        ((s.chan.recv i waker).1.channels i).queue.items = rest := by
  refine ⟨fun hnil => ?_, fun sample rest hcons => recv_of_cons hcons waker⟩
  obtain ⟨hanswer, hrest⟩ := recv_of_nil hnil waker
  refine ⟨?_, hrest⟩
  rw [hanswer, if_neg]
  rintro ⟨-, hgone⟩
  rw [h.state_of_live hsender hlive] at hgone
  exact absurd hgone (by decide)

/-- While the sender is there, `send` reaches exactly the receivers with room and its answer says
so. What a receiver has got and what is in its queue is what was delivered to it since it
subscribed, in that order; its `recv` takes the oldest value of the queue, and waits only when
there is none. -/
theorem broadcast_send_delivers {maxNumOfReceivers : UInt16}
    {s₀ s : Broadcast maxNumOfReceivers.toNat T P size}
    (hcreate : Broadcast.createChannel maxNumOfReceivers = some s₀)
    (hrun : Reaches (Broadcast.step (F := F)) SenderStays s₀ s) (v : T) :
    (∃ (chan : BroadcastChannel maxNumOfReceivers.toNat (Sample T) P size)
        (ret : Except CommonErrors Unit) (woken : List (Waker P F)),
      s.chan.send ⟨s.sends, v⟩ = some (chan, ret, woken) ∧
      (∀ i, (chan.channels i).queue.items =
        if s.live i = true ∧ (s.queue i).length < size then s.queue i ++ [⟨s.sends, v⟩]
        else s.queue i) ∧
      (ret = .ok () ↔
        (∃ i, s.live i = true) ∧ ∀ i, s.live i = true → (s.queue i).length < size) ∧
      (ret = .error .noSpaceLeft ↔ ∃ i, s.live i = true ∧ size ≤ (s.queue i).length) ∧
      (ret = .error .genericError ↔ ∀ i, s.live i = false)) ∧
    ∀ i, s.live i = true → (s.logs i).received ++ s.queue i = (s.logs i).delivered ∧
      ∀ waker : Waker P F,
        (s.queue i = [] → (s.chan.recv i waker).2 = .pending ∧
          ((s.chan.recv i waker).1.channels i).queue.items = []) ∧
        ∀ sample rest, s.queue i = sample :: rest →
          (s.chan.recv i waker).2 = .ready (some sample) ∧
            ((s.chan.recv i waker).1.channels i).queue.items = rest := by
  have hstart : LogsOk s₀ := by
    intro i _
    obtain ⟨hqueue, hlog⟩ := createChannel_logs hcreate i
    rw [hqueue, hlog]
    rfl
  have hok : s.sender = true ∧ SlotsOk s ∧ LogsOk s := by
    refine hrun.invariant (I := fun s => s.sender = true ∧ SlotsOk s ∧ LogsOk s)
      ⟨createChannel_sender hcreate, slotsOk_createChannel hcreate, hstart⟩ ?_
    intro s a s' ⟨hsender, hslots, hlogs⟩ hstays hstep
    have hmove := moves_of_step hstep
    exact ⟨hmove.sender_stays hstays hsender, hslots.move hmove, hlogs.move hslots hsender hmove⟩
  obtain ⟨hsender, hslots, hlogs⟩ := hok
  obtain ⟨chan, ret, woken, hsend, -⟩ := hslots.send (F := F) ⟨s.sends, v⟩
  have hret := hslots.send_ret hsender hsend
  refine ⟨⟨chan, ret, woken, hsend, hslots.send_queue hsender hsend, ?_⟩, fun i hlive =>
    ⟨hlogs i hlive, fun waker => hslots.recv_live hsender hlive waker⟩⟩
  by_cases hfull : ∃ i, s.live i = true ∧ size ≤ (s.queue i).length
  · rw [if_pos hfull] at hret
    obtain ⟨i, hlive, hlength⟩ := hfull
    subst hret
    refine ⟨iff_of_false (by simp) fun hroom => ?_, iff_of_true rfl ⟨i, hlive, hlength⟩,
      iff_of_false (by simp) fun hnone => ?_⟩
    · exact absurd (hroom.2 i hlive) (not_lt.mpr hlength)
    · rw [hnone i] at hlive
      cases hlive
  · rw [if_neg hfull] at hret
    have hroom : ∀ i, s.live i = true → (s.queue i).length < size :=
      fun i hlive => not_le.mp fun hlength => hfull ⟨i, hlive, hlength⟩
    by_cases hnone : ∀ i, s.live i = false
    · rw [if_pos hnone] at hret
      subst hret
      refine ⟨iff_of_false (by simp) ?_, iff_of_false (by simp) hfull, iff_of_true rfl hnone⟩
      rintro ⟨⟨i, hlive⟩, -⟩
      rw [hnone i] at hlive
      cases hlive
    · rw [if_neg hnone] at hret
      subst hret
      refine ⟨iff_of_true rfl ⟨?_, hroom⟩, iff_of_false (by simp) hfull,
        iff_of_false (by simp) hnone⟩
      simpa using hnone

/-- One of two receivers is full and the other one has room for the value. The `recv` of the first
takes the value that is there, and that of the other waits. -/
theorem broadcast_send_delivers_full :
    ∃ s₀ s : Broadcast (UInt16.toNat 2) Nat Nat 1, Broadcast.createChannel 2 = some s₀ ∧
      Reaches (Broadcast.step (F := Empty)) SenderStays s₀ s ∧
      (∃ chan ret woken, s.chan.send (F := Empty) ⟨s.sends, 6⟩ = some (chan, ret, woken) ∧
        ret = .error .noSpaceLeft) ∧
      (s.chan.recv (F := Empty) ⟨1, by decide⟩ (createWaker 8)).2 = .ready (some ⟨0, 5⟩) ∧
      (s.chan.recv (F := Empty) ⟨0, by decide⟩ (createWaker 7)).2 = .pending := by
  have hexists : ∃ s : Broadcast (UInt16.toNat 2) Nat Nat 1,
      Reaches (Broadcast.step (F := Empty)) SenderStays
          (Broadcast.new.addReceiver ⟨0, by decide⟩) s ∧
        (s.live ⟨1, by decide⟩ = true ∧ s.queue ⟨1, by decide⟩ = [⟨0, 5⟩]) ∧
        s.live ⟨0, by decide⟩ = true ∧ s.queue ⟨0, by decide⟩ = [] :=
    exists_reaches [BroadcastAction.subscribe (some ⟨1, by decide⟩), .send 5,
      .recv ⟨0, by decide⟩ (createWaker 7)] (by decide)
  obtain ⟨s, hrun, ⟨hlive, hfull⟩, hlive', hempty⟩ := hexists
  obtain ⟨⟨chan, ret, woken, hsend, -, -, hret, -⟩, hrecv⟩ := broadcast_send_delivers rfl hrun 6
  refine ⟨_, s, rfl, hrun, ⟨chan, ret, woken, hsend, hret.mpr ⟨_, hlive, ?_⟩⟩, ?_, ?_⟩
  · rw [hfull]
    exact le_rfl
  · exact (((hrecv _ hlive).2 _).2 _ _ hfull).1
  · exact (((hrecv _ hlive').2 _).1 hempty).1

end Delivery

end Kyron.Proofs.Channels
