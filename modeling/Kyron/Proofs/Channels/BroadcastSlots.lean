import Mathlib.Data.List.FinRange
import Kyron.Channels.Broadcast
import Kyron.Proofs.Channels.SpscSystem

/-!
# `Kyron.Proofs.Channels.BroadcastSlots`: the slots of a broadcast channel

What `send` does to the slots, what each step of the system does, and which slots have been handed
out in every state that the steps lead to.
-/

set_option autoImplicit false

namespace Kyron.Proofs.Channels

open Kyron.Channels
open Kyron.Futures
open Kyron.Lib
open Kyron.Scheduler
open Function
open Broadcast

variable {n size : Nat} {T P F : Type}

/-! ### One channel -/

section Channel

variable {c : Channel T P size}

theorem enableReceiver_of_recvGone (h : c.connectedState = recvGone) :
    c.enableReceiver = { c with queue := .empty, connectedState := bothIn } := by
  unfold Channel.enableReceiver
  rw [if_pos (by rw [h]; decide), h]
  rfl

theorem enableReceiver_of_present (h : c.connectedState = bothIn ∨ c.connectedState = senderGone) :
    c.enableReceiver = c := by
  rcases h with h | h <;> exact if_neg (by rw [h]; decide)

theorem send_of_recvGone (v : T) (h : c.connectedState = recvGone) :
    c.send (F := F) v = (c, .error .genericError, none) := by
  unfold Channel.send
  rw [if_pos h]

theorem send_of_full (v : T) (h : c.connectedState ≠ recvGone)
    (hfull : size ≤ c.queue.items.length) :
    c.send (F := F) v = (c, .error .noSpaceLeft, none) := by
  unfold Channel.send
  rw [if_neg h, SpscQueue.push, dif_neg (by omega)]

/-- A value is accepted. -/
theorem send_of_room (v : T) (h : c.connectedState ≠ recvGone)
    (hroom : c.queue.items.length < size) :
    ∃ queue waker, queue.items = c.queue.items ++ [v] ∧
      c.send (F := F) v = ({ c with queue, wakerStore := .empty }, .ok (), waker) := by
  unfold Channel.send
  rw [if_neg h, SpscQueue.push, dif_pos hroom]
  exact ⟨_, _, rfl, rfl⟩

/-- `receive` takes the oldest value. -/
theorem receive_of_cons (waker : Waker P F) {v : T} {rest : List T}
    (h : c.queue.items = v :: rest) :
    ∃ queue, queue.items = rest ∧
      c.receive waker = ({ c with queue, wakerStore := .empty }, .ok v) := by
  cases hpop : c.queue.pop with
  | none =>
      rw [pop_eq_none_iff.mp hpop] at h
      cases h
  | some r =>
      obtain ⟨v', queue⟩ := r
      have hitems := pop_items hpop
      rw [h] at hitems
      cases hitems
      refine ⟨queue, rfl, ?_⟩
      unfold Channel.receive
      rw [hpop]
      rfl

/-- `receive` finds nothing. It answers the end only when the sender is gone and no waker was
stored. -/
theorem receive_of_nil (waker : Waker P F) (h : c.queue.items = []) :
    ∃ store, c.receive waker = ({ c with wakerStore := store },
      if c.wakerStore.data = none ∧ c.connectedState = senderGone then .error .alreadyDone
      else .error .noData) ∧
      (c.wakerStore.data = none → c.connectedState = senderGone → store.data = none) := by
  unfold Channel.receive
  rw [pop_eq_none_iff.mpr h]
  cases hstore : c.wakerStore.data with
  | some p =>
      refine ⟨⟨waker.data⟩, ?_, fun hnone => by cases hnone⟩
      simp [AtomicWakerStore.swap, hstore]
  | none =>
      by_cases hgone : c.connectedState = senderGone
      · refine ⟨.empty, ?_, fun _ _ => rfl⟩
        simp [AtomicWakerStore.swap, hstore, hgone, Channel.clearWaker, AtomicWakerStore.take,
          AtomicWakerStore.empty]
      · refine ⟨⟨waker.data⟩, ?_, fun _ hgone' => absurd hgone' hgone⟩
        simp [AtomicWakerStore.swap, hstore, hgone]

theorem send_connectedState (v : T) : (c.send (F := F) v).1.connectedState = c.connectedState := by
  unfold Channel.send
  split
  · rfl
  · split <;> rfl

theorem receive_connectedState (waker : Waker P F) :
    (c.receive waker).1.connectedState = c.connectedState := by
  cases hitems : c.queue.items with
  | nil =>
      obtain ⟨store, hreceive, -⟩ := receive_of_nil waker hitems
      rw [hreceive]
  | cons v rest =>
      obtain ⟨queue, -, hreceive⟩ := receive_of_cons waker hitems
      rw [hreceive]

end Channel

/-! ### The loop of `send` -/

section SendLoop

variable {v : T} {len : Nat}

/-- The slot refuses a value although its receiver is there. -/
def IsFull (c : Channel T P size) : Prop :=
  c.connectedState ≠ recvGone ∧ size ≤ c.queue.items.length

instance (c : Channel T P size) : Decidable (IsFull c) := inferInstanceAs (Decidable (_ ∧ _))

/-- The loop has gone over the slots `done`. -/
structure SendLoopOk (channels : Fin n → Channel T P size) (v : T) (len : Nat) (done : List (Fin n))
    (l : BroadcastChannel.SendLoop n T P F size) : Prop where
  slots : ∀ i, l.channels i = if i ∈ done then ((channels i).send (F := F) v).1 else channels i
  count : l.i = done.countP fun c => decide ((channels c).connectedState = recvGone)
  ret : l.ret =
    if ∃ c ∈ done, IsFull (channels c) then .error .noSpaceLeft
    else if l.i = len then .error .genericError
    else .ok ()

variable {done : List (Fin n)}

/-- Where some slot is full, not all of the slots are without a receiver. -/
theorem countP_lt_of_isFull {channels : Fin n → Channel T P size}
    (h : ∃ c ∈ done, IsFull (channels c)) :
    done.countP (fun c => decide ((channels c).connectedState = recvGone)) < done.length := by
  obtain ⟨c, hmem, hfull⟩ := h
  rw [List.countP_lt_length_iff]
  exact ⟨c, hmem, by simpa using hfull.1⟩

/-- What one iteration does to the variables of the loop. -/
theorem sendLoop_next (v : T) (len : Nat) (l : BroadcastChannel.SendLoop n T P F size)
    (c : Fin n) :
    (l.next v len c).channels =
        Function.update l.channels c ((l.channels c).send (F := F) v).1 ∧
      (l.next v len c).i =
        (if (l.channels c).connectedState = recvGone then l.i + 1 else l.i) ∧
      (l.next v len c).ret =
        if IsFull (l.channels c) then .error .noSpaceLeft
        else if (l.channels c).connectedState = recvGone ∧ l.i + 1 = len then .error .genericError
        else l.ret := by
  unfold BroadcastChannel.SendLoop.next
  by_cases hgone : (l.channels c).connectedState = recvGone
  · have hnot : ¬ IsFull (l.channels c) := fun hfull => hfull.1 hgone
    by_cases hall : l.i + 1 = len
    · simp [send_of_recvGone (F := F) v hgone, hgone, hall, hnot]
    · simp [send_of_recvGone (F := F) v hgone, hgone, hall, hnot]
  · by_cases hroom : (l.channels c).queue.items.length < size
    · have hnot : ¬ IsFull (l.channels c) := fun hfull => absurd hfull.2 (by omega)
      obtain ⟨queue, waker, -, hsend⟩ := send_of_room (F := F) v hgone hroom
      simp [hsend, hgone, hnot]
    · have hfull : IsFull (l.channels c) := ⟨hgone, by omega⟩
      simp [send_of_full (F := F) v hgone (by omega), hgone, hfull]

/-- One more slot. A slot that is not done yet is as it was before the loop. -/
theorem SendLoopOk.next {channels : Fin n → Channel T P size} {c : Fin n}
    {l : BroadcastChannel.SendLoop n T P F size} (h : SendLoopOk channels v len done l)
    (hnew : c ∉ done) (hlen : done.length < len) :
    SendLoopOk channels v len (done ++ [c]) (l.next v len c) := by
  obtain ⟨hslots, hi, hret⟩ := sendLoop_next v len l c
  have hsame : l.channels c = channels c := by
    rw [h.slots c, if_neg hnew]
  rw [hsame] at hslots hi hret
  have hle : l.i ≤ done.length := by
    rw [h.count]
    exact List.countP_le_length
  refine ⟨fun i => ?_, ?_, ?_⟩
  · rw [hslots]
    by_cases hic : i = c
    · subst hic
      simp
    · rw [update_of_ne hic, h.slots i]
      simp [hic]
  · rw [hi, List.countP_append, ← h.count, List.countP_singleton]
    split <;> simp_all
  · have hbefore : l.i ≠ len := by omega
    rw [hret, hi, h.ret]
    by_cases hfull : IsFull (channels c)
    · have hsome : ∃ c' ∈ done ++ [c], IsFull (channels c') := ⟨c, by simp, hfull⟩
      rw [if_pos hfull, if_pos hsome]
    · have hiff : (∃ c' ∈ done ++ [c], IsFull (channels c')) ↔
          ∃ c' ∈ done, IsFull (channels c') := by
        simp [or_and_right, exists_or, hfull]
      simp only [hfull, hiff, hbefore, if_false]
      by_cases hgone : (channels c).connectedState = recvGone ∧ l.i + 1 = len
      · -- All slots were without a receiver, so none of them was full.
        have hnone : ¬ ∃ c' ∈ done, IsFull (channels c') := by
          intro hsome
          have hlt := countP_lt_of_isFull hsome
          rw [← h.count] at hlt
          omega
        simp [hgone, hnone]
      · by_cases hrecv : (channels c).connectedState = recvGone
        · have hnot : l.i + 1 ≠ len := fun heq => hgone ⟨hrecv, heq⟩
          simp [hrecv, hnot]
        · simp [hrecv, hbefore]

theorem mem_take_finRange {k : Nat} {i : Fin n} : i ∈ (List.finRange n).take k ↔ i.val < k := by
  rw [List.mem_take_iff_getElem]
  constructor
  · rintro ⟨j, hj, rfl⟩
    simp only [List.getElem_finRange, Fin.val_cast]
    omega
  · intro hi
    exact ⟨i, by simp [hi], by simp⟩

/-- The whole loop, over different slots. -/
theorem sendLoopOk_foldl (channels : Fin n → Channel T P size) (hnodup : done.Nodup)
    (hlen : done.length ≤ len) (hpos : 0 < len) :
    SendLoopOk channels v len done (done.foldl (BroadcastChannel.SendLoop.next v len)
      { channels, ret := .ok (), i := 0, woken := ([] : List (Waker P F)) }) := by
  induction done using List.reverseRecOn with
  | nil =>
      refine ⟨fun i => by simp, rfl, ?_⟩
      have hne : (0 : Nat) ≠ len := by omega
      simp [hne]
  | append_singleton done c ih =>
      rw [List.length_append, List.length_singleton] at hlen
      rw [List.foldl_append]
      obtain ⟨hdone, -, hdisjoint⟩ := List.nodup_append.mp hnodup
      refine (ih hdone (by omega)).next ?_ (by omega)
      exact fun hmem => hdisjoint c hmem c (List.mem_singleton_self c) rfl

end SendLoop

/-! ### The slots -/

section Slots

/-- The state byte of a slot while the sender is there. -/
def presentState (live : Bool) : UInt8 := if live then bothIn else recvGone

/-- Which slots were handed out, and what they look like while the sender is there. The index set
of the channel has the slots of the receivers that are there. -/
structure SlotsOk (s : Broadcast n T P size) : Prop where
  small : n < 65536
  table : s.chan.freeSlots.borrowed = s.receivers
  used : s.chan.freeSlots.used = s.chan.subscriberIndexMax.toNat + 1
  used_le : s.chan.freeSlots.used ≤ n
  live_lt : ∀ i, s.live i = true → i.val < s.chan.freeSlots.used
  fresh : s.sender = true → ∀ i : Fin n, s.chan.freeSlots.used ≤ i → s.chan.channels i = .new
  state : s.sender = true → ∀ i : Fin n, i.val < s.chan.freeSlots.used →
    (s.chan.channels i).connectedState = presentState (s.live i)
  store : s.sender = true → ∀ i, s.live i = false → (s.chan.channels i).wakerStore.data = none

variable {s s' : Broadcast n T P size}

variable {i slot receiver : Fin n} {chan : BroadcastChannel n (Sample T) P size}
variable {ret : Except CommonErrors Unit} {woken : List (Waker P F)} {sample : Sample T}

theorem SlotsOk.state_of_live (h : SlotsOk s) (hsender : s.sender = true)
    (hlive : s.live i = true) :
    (s.chan.channels i).connectedState = bothIn := by
  rw [h.state hsender i (h.live_lt i hlive), hlive]
  rfl

theorem SlotsOk.state_ne_recvGone_iff (h : SlotsOk s) (hsender : s.sender = true)
    (hused : i.val < s.chan.freeSlots.used) :
    (s.chan.channels i).connectedState ≠ recvGone ↔ s.live i = true := by
  rw [h.state hsender i hused]
  cases s.live i <;> decide

/-- A `send` reaches every slot that was handed out. -/
theorem SlotsOk.send (h : SlotsOk s) (sample : Sample T) :
    ∃ (chan : BroadcastChannel n (Sample T) P size) (ret : Except CommonErrors Unit)
      (woken : List (Waker P F)), s.chan.send sample = some (chan, ret, woken) ∧
      chan.freeSlots = s.chan.freeSlots ∧ chan.subscriberIndexMax = s.chan.subscriberIndexMax ∧
      (∀ i : Fin n, chan.channels i =
        if i.val < s.chan.freeSlots.used then ((s.chan.channels i).send (F := F) sample).1
        else s.chan.channels i) ∧
      ret = if ∃ i : Fin n, i.val < s.chan.freeSlots.used ∧ IsFull (s.chan.channels i) then
          .error .noSpaceLeft
        else if ∀ i : Fin n, i.val < s.chan.freeSlots.used →
          (s.chan.channels i).connectedState = recvGone then .error .genericError
        else .ok () := by
  have hle := h.used_le
  rw [h.used] at hle
  have hnodup : ((List.finRange n).take (s.chan.subscriberIndexMax.toNat + 1)).Nodup :=
    (List.nodup_finRange n).sublist (List.take_sublist _ _)
  have hlength : ((List.finRange n).take (s.chan.subscriberIndexMax.toNat + 1)).length =
      s.chan.subscriberIndexMax.toNat + 1 := by
    rw [List.length_take, List.length_finRange]
    omega
  have hmem : ∀ i : Fin n, i ∈ (List.finRange n).take (s.chan.subscriberIndexMax.toNat + 1) ↔
      i.val < s.chan.freeSlots.used := by
    intro i
    rw [h.used]
    exact mem_take_finRange
  have hloop := sendLoopOk_foldl (F := F) (v := sample) s.chan.channels hnodup hlength.le
    (Nat.succ_pos _)
  unfold BroadcastChannel.send
  rw [if_pos hle]
  refine ⟨_, _, _, rfl, rfl, rfl, fun i => ?_, ?_⟩
  · refine (hloop.slots i).trans ?_
    simp only [hmem]
  · refine hloop.ret.trans ?_
    have hall := List.countP_eq_length
      (p := fun c => decide ((s.chan.channels c).connectedState = recvGone))
      (l := (List.finRange n).take (s.chan.subscriberIndexMax.toNat + 1))
    rw [← hloop.count, hlength] at hall
    simp only [hall, hmem, decide_eq_true_eq]

/-- What the steps do. -/
inductive Moves (s : Broadcast n T P size) :
    BroadcastAction n T P F → Broadcast n T P size → Prop
  /-- No slot is free. -/
  | refused {a : BroadcastAction n T P F} : Moves s a s
  | subscribed {slot : Fin n} (hsender : s.sender = true)
      (hoffers : s.chan.freeSlots.offers slot = true) :
      Moves s (.subscribe (some slot)) (s.addReceiver slot)
  | cloned {receiver slot : Fin n} (hlive : s.live receiver = true)
      (hoffers : s.chan.freeSlots.offers slot = true) :
      Moves s (.tryClone receiver (some slot)) (s.addReceiver slot)
  | sent {v : T} {chan : BroadcastChannel n (Sample T) P size} {ret : Except CommonErrors Unit}
      {woken : List (Waker P F)} (hsender : s.sender = true)
      (hsend : s.chan.send ⟨s.sends, v⟩ = some (chan, ret, woken)) :
      Moves s (.send v) { s with chan, sends := s.sends + 1, logs := s.logSend ⟨s.sends, v⟩ }
  | received {receiver : Fin n} {waker : Waker P F} (hlive : s.live receiver = true) :
      Moves s (.recv receiver waker)
        { s with
          chan := (s.chan.recv receiver waker).1
          logs := s.logRecv receiver (s.chan.recv receiver waker).2 }
  | left {receiver : Fin n} (hlive : s.live receiver = true) :
      Moves s (.dropReceiver receiver) (s.removeReceiver receiver)
  | ended (hsender : s.sender = true) :
      Moves s .dropSender { s with chan := s.chan.senderDropping, sender := false }

theorem subscribe_cases {slot : Option (Fin n)} (h : s.subscribe slot = some s') :
    s' = s ∨ ∃ i, slot = some i ∧ s.chan.freeSlots.offers i = true ∧ s' = s.addReceiver i := by
  unfold subscribe at h
  split at h <;> split at h <;> cases h
  · exact Or.inl rfl
  · rename_i i hoffers
    exact Or.inr ⟨i, rfl, hoffers, rfl⟩

/-- Every step is one of the moves. -/
theorem moves_of_step {a : BroadcastAction n T P F} (h : s.step a = some s') : Moves s a s' := by
  cases a with
  | subscribe slot =>
      obtain ⟨hsender, hsubscribe⟩ := Option.ite_none_right_eq_some.mp h
      rcases subscribe_cases hsubscribe with rfl | ⟨i, rfl, hoffers, rfl⟩
      · exact .refused
      · exact .subscribed hsender hoffers
  | tryClone receiver slot =>
      obtain ⟨hlive, hsubscribe⟩ := Option.ite_none_right_eq_some.mp h
      rcases subscribe_cases hsubscribe with rfl | ⟨i, rfl, hoffers, rfl⟩
      · exact .refused
      · exact .cloned hlive hoffers
  | send v =>
      simp only [step, Option.ite_none_right_eq_some, Option.map_eq_some_iff] at h
      obtain ⟨hsender, ⟨chan, ret, woken⟩, hsend, rfl⟩ := h
      exact .sent hsender hsend
  | recv receiver waker =>
      obtain ⟨hlive, rfl⟩ := Option.ite_some_none_eq_some.mp h
      exact .received hlive
  | dropReceiver receiver =>
      obtain ⟨hlive, rfl⟩ := Option.ite_some_none_eq_some.mp h
      exact .left hlive
  | dropSender =>
      obtain ⟨hsender, rfl⟩ := Option.ite_some_none_eq_some.mp h
      exact .ended hsender

/-! #### The slots after each step -/

theorem offers_iff {set : UniqueIndexSet n} :
    set.offers i = true ↔ set.borrowed i = false ∧ i.val ≤ set.used := by
  simp [UniqueIndexSet.offers]

theorem toNat_max (a b : UInt16) : (max a b).toNat = max a.toNat b.toNat := by
  rw [UInt16.max_def, apply_ite UInt16.toNat, Nat.max_def]
  rfl

theorem addReceiver_channels (s : Broadcast n T P size) (slot : Fin n) :
    (s.addReceiver slot).chan.channels =
      Function.update s.chan.channels slot (s.chan.channels slot).enableReceiver := rfl

theorem recv_channels (s : Broadcast n T P size) (receiver : Fin n) (waker : Waker P F) :
    (s.chan.recv receiver waker).1.channels =
      Function.update s.chan.channels receiver ((s.chan.channels receiver).receive waker).1 := rfl

theorem removeReceiver_channels (s : Broadcast n T P size) (receiver : Fin n) :
    (s.removeReceiver receiver).chan.channels =
      Function.update s.chan.channels receiver (s.chan.channels receiver).receiverDropping := rfl

theorem removeReceiver_live (s : Broadcast n T P size) (receiver : Fin n) :
    (s.removeReceiver receiver).live = Function.update s.live receiver false := rfl

theorem addReceiver_live (s : Broadcast n T P size) (slot : Fin n) :
    (s.addReceiver slot).live = Function.update s.live slot true := rfl

/-- A slot that is offered is one that was released, or the first one that was never used. -/
theorem SlotsOk.offered (h : SlotsOk s) (hsender : s.sender = true)
    (hoffers : s.chan.freeSlots.offers slot = true) :
    (s.chan.channels slot).connectedState = recvGone ∨ s.chan.channels slot = .new := by
  obtain ⟨hfree, hle⟩ := offers_iff.mp hoffers
  by_cases hused : slot.val < s.chan.freeSlots.used
  · left
    rw [h.table] at hfree
    rw [h.state hsender slot hused]
    simp [live, hfree, presentState]
  · exact Or.inr (h.fresh hsender slot (by omega))

/-- The receiver of a new slot finds it empty and connected. -/
theorem SlotsOk.enabled (h : SlotsOk s) (hsender : s.sender = true)
    (hoffers : s.chan.freeSlots.offers slot = true) :
    (s.chan.channels slot).enableReceiver.queue.items = [] ∧
      (s.chan.channels slot).enableReceiver.connectedState = bothIn := by
  rcases h.offered hsender hoffers with hgone | hnew
  · rw [enableReceiver_of_recvGone hgone]
    exact ⟨rfl, rfl⟩
  · rw [hnew, enableReceiver_of_present (Or.inl rfl)]
    exact ⟨rfl, rfl⟩

/-- The index set offers only slots without a receiver. -/
theorem SlotsOk.addReceiver (h : SlotsOk s) (hoffers : s.chan.freeSlots.offers slot = true) :
    SlotsOk (s.addReceiver slot) := by
  have hle := (offers_iff.mp hoffers).2
  have hsmall := h.small
  have hused : (s.addReceiver slot).chan.freeSlots.used = max s.chan.freeSlots.used (slot + 1) :=
    rfl
  have hother : ∀ {i : Fin n}, i ≠ slot →
      (s.addReceiver slot).live i = s.live i ∧
        (s.addReceiver slot).chan.channels i = s.chan.channels i :=
    fun hi => ⟨update_of_ne hi _ _, update_of_ne hi _ _⟩
  constructor
  case small => exact hsmall
  case table =>
    show Function.update s.chan.freeSlots.borrowed slot true = Function.update s.receivers slot true
    rw [h.table]
  case used =>
    have hmax : (s.addReceiver slot).chan.subscriberIndexMax.toNat =
        max s.chan.subscriberIndexMax.toNat slot := by
      refine (toNat_max _ _).trans ?_
      have hlt : slot.val < UInt16.size := slot.isLt.trans hsmall
      rw [UInt16.toNat_ofNat_of_lt' hlt]
    rw [hused, hmax, h.used]
    omega
  case used_le =>
    have hslot := slot.isLt
    have hold := h.used_le
    omega
  case live_lt =>
    intro i hlive
    by_cases hi : i = slot
    · subst hi
      omega
    · rw [(hother hi).1] at hlive
      have hlt := h.live_lt i hlive
      omega
  case fresh =>
    intro hsender i hi
    have hne : i ≠ slot := by
      rintro rfl
      omega
    rw [(hother hne).2]
    exact h.fresh hsender i (by omega)
  case state =>
    intro hsender i hi
    by_cases hslot : i = slot
    · subst hslot
      rw [addReceiver_live, addReceiver_channels, update_self, update_self,
        (h.enabled hsender hoffers).2]
      rfl
    · have hne : i.val ≠ slot.val := fun heq => hslot (Fin.ext heq)
      rw [(hother hslot).1, (hother hslot).2]
      exact h.state hsender i (by omega)
  case store =>
    intro hsender i hfree
    by_cases hi : i = slot
    · subst hi
      rw [addReceiver_live, update_self] at hfree
      cases hfree
    · rw [(hother hi).1] at hfree
      rw [(hother hi).2]
      exact h.store hsender i hfree

/-- A new channel has its first receiver in slot 0. -/
theorem slotsOk_createChannel {maxNumOfReceivers : UInt16}
    {s : Broadcast maxNumOfReceivers.toNat T P size}
    (h : Broadcast.createChannel maxNumOfReceivers = some s) : SlotsOk s := by
  unfold createChannel at h
  split at h
  · rename_i hpos
    cases h
    have hchannels : ∀ i, ((Broadcast.new : Broadcast maxNumOfReceivers.toNat T P size).addReceiver
        ⟨0, hpos⟩).chan.channels i = .new := by
      intro i
      by_cases hi : i = ⟨0, hpos⟩
      · subst hi
        rw [addReceiver_channels, update_self]
        exact enableReceiver_of_present (Or.inl rfl)
      · rw [addReceiver_channels, update_of_ne hi]
        rfl
    have hlive : ∀ i, ((Broadcast.new : Broadcast maxNumOfReceivers.toNat T P size).addReceiver
        ⟨0, hpos⟩).live i = true ↔ i = ⟨0, hpos⟩ := by
      intro i
      rw [addReceiver_live]
      by_cases hi : i = ⟨0, hpos⟩
      · subst hi
        rw [update_self]
        exact iff_of_true rfl rfl
      · rw [update_of_ne hi]
        exact iff_of_false nofun hi
    refine ⟨maxNumOfReceivers.toNat_lt, rfl, rfl, hpos, fun i hi => ?_, fun _ i _ => hchannels i,
      fun _ i hi => ?_, fun _ i _ => by rw [hchannels i]; rfl⟩
    · rw [(hlive i).mp hi]
      exact Nat.one_pos
    · have hzero : i = ⟨0, hpos⟩ := Fin.ext (Nat.lt_one_iff.mp hi)
      rw [hchannels i, (hlive i).mpr hzero]
      rfl
  · cases h

/-- Steps that leave the index set and the sender alone. -/
theorem SlotsOk.frame (h : SlotsOk s) (hreceivers : s'.receivers = s.receivers)
    (hslots : s'.chan.freeSlots = s.chan.freeSlots)
    (hmax : s'.chan.subscriberIndexMax = s.chan.subscriberIndexMax) (hsender : s'.sender = s.sender)
    (hfresh : s.sender = true → ∀ i : Fin n, s.chan.freeSlots.used ≤ i →
      s'.chan.channels i = s.chan.channels i)
    (hstate : ∀ i, (s'.chan.channels i).connectedState = (s.chan.channels i).connectedState)
    (hstore : s.sender = true → ∀ i, s.live i = false →
      s'.chan.channels i = s.chan.channels i) : SlotsOk s' := by
  have hlive : s'.live = s.live := by
    unfold live
    rw [hreceivers]
  constructor
  case small => exact h.small
  case table => rw [hslots, hreceivers, h.table]
  case used => rw [hslots, hmax, h.used]
  case used_le =>
    rw [hslots]
    exact h.used_le
  case live_lt =>
    rw [hslots, hlive]
    exact h.live_lt
  case fresh =>
    intro hs i hi
    rw [hsender] at hs
    rw [hslots] at hi
    rw [hfresh hs i hi]
    exact h.fresh hs i hi
  case state =>
    intro hs i hi
    rw [hsender] at hs
    rw [hslots] at hi
    rw [hstate, hlive]
    exact h.state hs i hi
  case store =>
    intro hs i hi
    rw [hsender] at hs
    rw [hlive] at hi
    rw [hstore hs i hi]
    exact h.store hs i hi

/-- `send` writes to channels of slots that are used. -/
theorem SlotsOk.sent (h : SlotsOk s) {v : T}
    (hsend : s.chan.send ⟨s.sends, v⟩ = some (chan, ret, woken)) :
    SlotsOk { s with chan, sends := s.sends + 1, logs := s.logSend ⟨s.sends, v⟩ } := by
  obtain ⟨chan', ret', woken', hsend', hslots, hmax, hchannels, -⟩ :=
    h.send (F := F) ⟨s.sends, v⟩
  rw [hsend] at hsend'
  cases hsend'
  refine h.frame rfl hslots hmax rfl ?_ ?_ ?_
  · intro _ i hi
    exact (hchannels i).trans (if_neg (by omega))
  · intro i
    show (chan.channels i).connectedState = _
    rw [hchannels i]
    split
    · exact send_connectedState _
    · rfl
  · intro hs i hfree
    refine (hchannels i).trans ?_
    split
    · rename_i hi
      have hgone : (s.chan.channels i).connectedState = recvGone := by
        rw [h.state hs i hi, hfree]
        rfl
      rw [send_of_recvGone _ hgone]
    · rfl

/-- `recv` reads from the channel of its receiver. -/
theorem SlotsOk.received (h : SlotsOk s) {waker : Waker P F} (hlive : s.live receiver = true) :
    SlotsOk { s with
      chan := (s.chan.recv receiver waker).1
      logs := s.logRecv receiver (s.chan.recv receiver waker).2 } := by
  have hother : ∀ i, i ≠ receiver →
      (s.chan.recv receiver waker).1.channels i = s.chan.channels i := by
    intro i hi
    rw [recv_channels, update_of_ne hi]
  refine h.frame rfl rfl rfl rfl ?_ ?_ ?_
  · intro _ i hi
    refine hother i ?_
    rintro rfl
    have hlt := h.live_lt i hlive
    omega
  · intro i
    by_cases hi : i = receiver
    · subst hi
      show ((s.chan.recv i waker).1.channels i).connectedState = _
      rw [recv_channels, update_self, receive_connectedState]
    · exact congrArg _ (hother i hi)
  · intro _ i hfree
    refine hother i ?_
    rintro rfl
    rw [hlive] at hfree
    cases hfree

/-- A receiver gives its slot back. -/
theorem SlotsOk.left (h : SlotsOk s) (hlive : s.live receiver = true) :
    SlotsOk (s.removeReceiver receiver) := by
  constructor
  case small => exact h.small
  case table =>
    show Function.update s.chan.freeSlots.borrowed receiver false =
      Function.update s.receivers receiver false
    rw [h.table]
  case used => exact h.used
  case used_le => exact h.used_le
  case live_lt =>
    intro i hi
    by_cases hreceiver : i = receiver
    · subst hreceiver
      exact h.live_lt i hlive
    · refine h.live_lt i ?_
      rwa [removeReceiver_live, update_of_ne hreceiver] at hi
  case fresh =>
    intro hs i hi
    have hne : i ≠ receiver := by
      rintro rfl
      exact absurd (h.live_lt i hlive) (not_lt.mpr hi)
    rw [removeReceiver_channels, update_of_ne hne]
    exact h.fresh hs i hi
  case state =>
    intro hs i hi
    rw [removeReceiver_channels, removeReceiver_live]
    by_cases hreceiver : i = receiver
    · subst hreceiver
      rw [update_self, update_self]
      rfl
    · rw [update_of_ne hreceiver, update_of_ne hreceiver]
      exact h.state hs i hi
  case store =>
    intro hs i hi
    rw [removeReceiver_live] at hi
    rw [removeReceiver_channels]
    by_cases hreceiver : i = receiver
    · subst hreceiver
      rw [update_self]
      rfl
    · rw [update_of_ne hreceiver] at hi ⊢
      exact h.store hs i hi

/-- Every move keeps `SlotsOk`. -/
theorem SlotsOk.move {a : BroadcastAction n T P F} (h : SlotsOk s) (hmove : Moves s a s') :
    SlotsOk s' := by
  cases hmove with
  | refused => exact h
  | subscribed hsender hoffers => exact h.addReceiver hoffers
  | cloned hlive hoffers => exact h.addReceiver hoffers
  | sent hsender hsend => exact h.sent hsend
  | received hlive => exact h.received hlive
  | left hlive => exact h.left hlive
  | ended hsender =>
      exact ⟨h.small, h.table, h.used, h.used_le, h.live_lt, nofun, nofun, nofun⟩

/-! #### The queues after each step -/

/-- What `recv` answers, and what it leaves in the queue. -/
theorem recv_of_cons {rest : List (Sample T)} (h : s.queue receiver = sample :: rest)
    (waker : Waker P F) :
    (s.chan.recv receiver waker).2 = .ready (some sample) ∧
      ((s.chan.recv receiver waker).1.channels receiver).queue.items = rest := by
  obtain ⟨queue, hrest, hreceive⟩ := receive_of_cons waker h
  constructor
  · unfold BroadcastChannel.recv
    rw [hreceive]
    rfl
  · rw [recv_channels, update_self, hreceive]
    exact hrest

/-- With an empty queue the answer is the end of the sender, or `Pending`. -/
theorem recv_of_nil (h : s.queue receiver = []) (waker : Waker P F) :
    (s.chan.recv receiver waker).2 =
        (if (s.chan.channels receiver).wakerStore.data = none ∧
          (s.chan.channels receiver).connectedState = senderGone then .ready none
        else .pending) ∧
      ((s.chan.recv receiver waker).1.channels receiver).queue.items = [] := by
  obtain ⟨store, hreceive, -⟩ := receive_of_nil waker h
  constructor
  · unfold BroadcastChannel.recv
    rw [hreceive]
    dsimp only
    split <;> rfl
  · rw [recv_channels, update_self, hreceive]
    exact h

theorem logRecv_of_ne (h : i ≠ receiver) (answer : Poll (Option (Sample T))) :
    s.logRecv receiver answer i = s.logs i := by
  unfold logRecv
  split
  · exact update_of_ne h ..
  · rfl

/-- A poll of `recv` moves the oldest value from the queue to what the receiver got. -/
theorem recv_conserves (s : Broadcast n T P size) (receiver i : Fin n) (waker : Waker P F) :
    (s.logRecv receiver (s.chan.recv receiver waker).2 i).since = (s.logs i).since ∧
      (s.logRecv receiver (s.chan.recv receiver waker).2 i).delivered = (s.logs i).delivered ∧
      (s.logRecv receiver (s.chan.recv receiver waker).2 i).received ++
          ((s.chan.recv receiver waker).1.channels i).queue.items =
        (s.logs i).received ++ s.queue i := by
  by_cases hi : i = receiver
  · subst hi
    cases hqueue : s.queue i with
    | nil =>
        obtain ⟨hanswer, hrest⟩ := recv_of_nil hqueue waker
        rw [hrest, hanswer]
        split <;> exact ⟨rfl, rfl, rfl⟩
    | cons sample rest =>
        obtain ⟨hanswer, hrest⟩ := recv_of_cons hqueue waker
        have hlog : s.logRecv i (.ready (some sample)) i =
            { s.logs i with received := (s.logs i).received ++ [sample] } :=
          update_self ..
        rw [hrest, hanswer, hlog]
        exact ⟨rfl, rfl, List.append_assoc ..⟩
  · rw [logRecv_of_ne hi, recv_channels, update_of_ne hi]
    exact ⟨rfl, rfl, rfl⟩

theorem logSend_since (s : Broadcast n T P size) (sample : Sample T) (i : Fin n) :
    (s.logSend sample i).since = (s.logs i).since := by
  unfold logSend
  split <;> rfl

theorem logSend_received (s : Broadcast n T P size) (sample : Sample T) (i : Fin n) :
    (s.logSend sample i).received = (s.logs i).received := by
  unfold logSend
  split <;> rfl

/-- The receivers that are left after one was dropped, with their queues. -/
theorem live_of_removeReceiver (h : (s.removeReceiver receiver).live i = true) :
    s.live i = true ∧ (s.removeReceiver receiver).queue i = s.queue i := by
  rw [removeReceiver_live] at h
  rw [queue, removeReceiver_channels]
  by_cases hi : i = receiver
  · rw [hi, update_self] at h
    cases h
  · rw [update_of_ne hi] at h ⊢
    exact ⟨h, rfl⟩

/-- A `send` appends to the queues of the receivers that have room. -/
theorem SlotsOk.send_queue (h : SlotsOk s) (hsender : s.sender = true)
    (hsend : s.chan.send sample = some (chan, ret, woken)) (i : Fin n) :
    (chan.channels i).queue.items =
      if s.live i = true ∧ (s.queue i).length < size then s.queue i ++ [sample]
      else s.queue i := by
  obtain ⟨chan', ret', woken', hsend', -, -, hchannels, -⟩ := h.send (F := F) sample
  rw [hsend] at hsend'
  cases hsend'
  rw [hchannels i]
  by_cases hused : i.val < s.chan.freeSlots.used
  · rw [if_pos hused]
    cases hlive : s.live i with
    | false =>
        have hgone : (s.chan.channels i).connectedState = recvGone := by
          rw [h.state hsender i hused, hlive]
          rfl
        rw [send_of_recvGone _ hgone]
        simp [queue]
    | true =>
        have hhere := (h.state_ne_recvGone_iff hsender hused).mpr hlive
        by_cases hroom : (s.queue i).length < size
        · obtain ⟨queue, waker, hitems, hone⟩ := send_of_room (F := F) sample hhere hroom
          rw [hone, if_pos ⟨rfl, hroom⟩]
          exact hitems
        · rw [send_of_full _ hhere (not_lt.mp hroom), if_neg (fun hboth => hroom hboth.2)]
          rfl
  · have hlive : s.live i = false := by
      rw [Bool.eq_false_iff]
      exact fun hlive => hused (h.live_lt i hlive)
    rw [if_neg hused, if_neg (by simp [hlive])]
    rfl

/-- What `send` answers. -/
theorem SlotsOk.send_ret (h : SlotsOk s) (hsender : s.sender = true)
    (hsend : s.chan.send sample = some (chan, ret, woken)) :
    ret = if ∃ i, s.live i = true ∧ size ≤ (s.queue i).length then .error .noSpaceLeft
      else if ∀ i, s.live i = false then .error .genericError
      else .ok () := by
  obtain ⟨chan', ret', woken', hsend', -, -, -, hret⟩ := h.send (F := F) sample
  rw [hsend] at hsend'
  cases hsend'
  have hfull : (∃ i : Fin n, i.val < s.chan.freeSlots.used ∧ IsFull (s.chan.channels i)) ↔
      ∃ i, s.live i = true ∧ size ≤ (s.queue i).length := by
    refine exists_congr fun i => ⟨?_, ?_⟩
    · rintro ⟨hused, hhere, hlength⟩
      exact ⟨(h.state_ne_recvGone_iff hsender hused).mp hhere, hlength⟩
    · rintro ⟨hlive, hlength⟩
      have hused := h.live_lt i hlive
      exact ⟨hused, (h.state_ne_recvGone_iff hsender hused).mpr hlive, hlength⟩
  have hgone : (∀ i : Fin n, i.val < s.chan.freeSlots.used →
      (s.chan.channels i).connectedState = recvGone) ↔ ∀ i, s.live i = false := by
    refine forall_congr' fun i => ⟨fun hstate => ?_, fun hfree hused => ?_⟩
    · rw [Bool.eq_false_iff]
      intro hlive
      have hused := h.live_lt i hlive
      exact (h.state_ne_recvGone_iff hsender hused).mpr hlive (hstate hused)
    · rw [h.state hsender i hused, hfree]
      rfl
  simp only [hret, hfull, hgone]

end Slots

end Kyron.Proofs.Channels
