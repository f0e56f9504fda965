import Kyron.Lib.Sums
import Kyron.Proofs.Task.Runner
import Kyron.Task.References

/-!
# `Kyron.Proofs.Task.ReferenceCount`: the strong count of a task is right

`total` adds up the references of a task over all places. Each step moves a reference from one
place to another, clones one that somebody has, or drops one. `Counted.move`, `Counted.clone` and
`Counted.drop` are these three, and `counted_step` assigns every step to one of them.
-/

set_option autoImplicit false

namespace Kyron.Proofs.Task

open Kyron.Lib
open Kyron.Task
open References

variable {T S : Type} [DecidableEq T]

/-! ### What the steps of the task do to the queues -/

/-- Only a pop and a push change the number of entries. -/
def MovesEntry : Action T → Prop
  | .pop _ _ | .push _ _ => True
  | _ => False

theorem Effect.queued_eq {s s' : Sys T} {a : Action T} (heff : Effect s a s')
    (ha : ¬ MovesEntry a) : s'.queued = s.queued := by
  cases heff with
  | pop | pushes | refused => exact absurd trivial ha
  | call | load | asserts | leaves | stores | looks | finds | clears | pending | ready | takes
  | noResult => rfl

omit [DecidableEq T] in
theorem queued_enqueue (s : Sys T) (lane : Lane) : (s.enqueue lane).queued = s.queued + 1 := by
  cases lane <;> simp [Sys.queued, Sys.enqueue] <;> omega

omit [DecidableEq T] in
theorem queued_dequeue {s : Sys T} {lane : Lane} (h : 0 < s.entries lane) :
    (s.dequeue lane).queued + 1 = s.queued := by
  cases lane <;> simp [Sys.queued, Sys.dequeue] <;> omega

/-- A push puts the task into a queue, or it is refused. -/
theorem push_cases {s s' : Sys T} {t : T} {fits : Bool} (hstep : s.step (.push t fits) = some s') :
    (s'.pc t = .idle ∧ s'.queued = s.queued + 1) ∨
    ((s'.pc t = .idle ∨ s'.pc t = .overflow) ∧ s'.queued = s.queued) := by
  generalize ha : Action.push t fits = a at hstep
  cases effect_of_step hstep with
  | pushes hpc =>
      cases ha
      exact Or.inl ⟨goto_pc_self .., queued_enqueue ..⟩
  | refused _ _ hnext =>
      cases ha
      refine Or.inr ⟨?_, rfl⟩
      rw [goto_pc_self]
      exact hnext
  | call hcall =>
      subst ha
      cases hcall
  | pop | load | asserts | leaves | stores | looks | finds | clears | pending | ready | takes
  | noResult => cases ha

theorem pop_queued {s s' : Sys T} {t : T} {lane : Lane} (hstep : s.step (.pop t lane) = some s') :
    s'.queued + 1 = s.queued := by
  obtain ⟨⟨-, hentry⟩, rfl⟩ := Option.ite_some_none_eq_some.mp hstep
  exact queued_dequeue hentry

/-! ### How many references there are -/

section Totals

variable {T S : Type} [Fintype T] [Fintype S]

theorem total_setSys (s : References T S) (sys : Sys T) :
    { s with sys }.total + s.sys.queued = s.total + sys.queued := by
  simp only [total]
  omega

theorem total_addWaker (s : References T S) (table : Lane) :
    (s.addWaker table).total = s.total + 1 := by
  cases table <;> simp [total, addWaker] <;> omega

variable {s : References T S}

theorem total_removeWaker {table : Lane} (h : 0 < s.wakers table) :
    (s.removeWaker table).total + 1 = s.total := by
  cases table <;> simp [total, removeWaker] <;> omega

theorem total_setStores [DecidableEq S] (s : References T S) (x : S) (b : Bool) :
    { s with stores := Function.update s.stores x b }.total + (s.stores x).toNat
      = s.total + b.toNat := by
  have hsum := sum_update (fun _ => Bool.toNat) s.stores x b
  simp only [total]
  omega

theorem total_setHandle (s : References T S) (handle : Handle T) :
    { s with handle }.total + s.handle.refs = s.total + handle.refs := by
  simp only [total]
  omega

theorem total_setHolds [DecidableEq T] (s : References T S) (t : T) (h : Holding) :
    (s.setHolds t h).total + (s.holds t).refs = s.total + h.refs := by
  have hsum := sum_update (fun _ => Holding.refs) s.holds t h
  simp only [total, setHolds]
  omega

theorem total_decrement (s : References T S) : s.decrement.total = s.total := rfl

theorem refs_pos {h : Holding} (hh : h ≠ .nothing) : 0 < h.refs := by
  cases h with
  | nothing => exact absurd rfl hh
  | unguarded task => cases task <;> decide
  | waking | popped | withWaker | polling | respawned | unwakered => decide

/-- A waker is a reference. -/
theorem total_pos_of_wakers {table : Lane} (h : 0 < s.wakers table) : 0 < s.total :=
  Nat.lt_of_lt_of_eq (Nat.succ_pos _) (total_removeWaker h)

/-- Somebody who holds a reference shows that there is one. -/
theorem total_pos_of_holds [DecidableEq T] {t : T} (h : s.holds t ≠ .nothing) : 0 < s.total := by
  have htotal : _ + _ = _ + 0 := total_setHolds s t .nothing
  have hpos := refs_pos h
  omega

theorem total_pos_of_handle (h : s.handle ≠ .dropped) : 0 < s.total := by
  have hpos : 0 < s.handle.refs := by
    cases hh : s.handle with
    | dropped => exact absurd hh h
    | owned | borrowed => exact Nat.one_pos
  unfold total
  omega

end Totals

/-! ### Every step keeps the count right -/

section Counts

variable {T S : Type}

/-- Each drop at the end of a call gives up one reference. -/
theorem refs_afterDrop {h h' : Holding} (hdrop : h.afterDrop = some h') : h.refs = h'.refs + 1 := by
  cases h with
  | unguarded task => cases task <;> cases hdrop <;> rfl
  | waking | polling | respawned | unwakered =>
      cases hdrop
      rfl
  | nothing | popped | withWaker => cases hdrop

variable {t : T} {table : Lane}

theorem holds_of_inFuture {s : References T S} (h : s.inFuture t = true) :
    s.holds t = .polling ∧ ∃ lane, s.sys.pc t = .inFuture lane := by
  unfold inFuture at h
  split at h
  · rename_i lane hpc
    exact ⟨of_decide_eq_true h, lane, hpc⟩
  · cases h

theorem free_of_isFree [DecidableEq T] {s : References T S} (h : s.isFree t = true) :
    s.holds t = .nothing ∧ s.handle ≠ .borrowed t := by
  unfold isFree at h
  simpa using h

variable [Fintype T] [Fintype S]

/-- The count of the task is the number of its references. -/
def Counted (s : References T S) : Prop := s.count.Counts s.total

theorem counted_spawned (lane : Lane) (hasSafety : Bool) :
    Counted (References.spawned lane hasSafety : References T S) := by
  have htotal : (References.spawned lane hasSafety : References T S).total = 3 := by
    cases lane <;>
      simp [total, spawned, Sys.queued, Sys.spawned, Handle.refs, Holding.refs]
  unfold Counted
  rw [htotal]
  exact RefCount.counts_new 2

/-- A reference moves from one place to another. -/
theorem Counted.move {s s' : References T S} (h : Counted s) (hcount : s'.count = s.count)
    (htotal : s'.total = s.total) : Counted s' := by
  unfold Counted
  rw [hcount, htotal]
  exact h

/-- Whoever has a reference makes another one. -/
theorem Counted.clone {s s' : References T S} (h : Counted s) (hpos : 0 < s.total)
    (hcount : s'.count = s.count.increment) (htotal : s'.total = s.total + 1) : Counted s' := by
  unfold Counted
  rw [hcount, htotal]
  exact h.increment hpos

/-- A reference is dropped. -/
theorem Counted.drop {s s' : References T S} (h : Counted s)
    (hcount : s'.count = s.count.decrement) (htotal : s'.total + 1 = s.total) : Counted s' := by
  unfold Counted at h ⊢
  rw [← htotal] at h
  rw [hcount]
  exact h.decrement

/-- The store takes a waker or not, and gives away the one that it had. -/
theorem total_store [DecidableEq S] (s : References T S) (x : S) (b : Bool) :
    { (if s.stores x then s.addWaker .normal else s) with
      stores := Function.update s.stores x b }.total = s.total + b.toNat := by
  cases hx : s.stores x with
  | false =>
      have hset := total_setStores s x b
      rwa [hx] at hset
  | true =>
      have hset := total_setStores (s.addWaker .normal) x b
      have hadd := total_addWaker s .normal
      rw [show (s.addWaker .normal).stores = s.stores from rfl, hx, Bool.toNat_true, hadd,
        Nat.add_right_comm] at hset
      exact Nat.add_right_cancel hset

/-- A swap moves the given waker into the store and the stored one out of it. -/
theorem total_swap [DecidableEq S] {s : References T S} {x : S} {given : Option Lane}
    (hgiven : ∀ table ∈ given, 0 < s.wakers table) : (s.swap x given).total = s.total := by
  cases given with
  | none => exact total_store s x false
  | some table =>
      exact (total_store (s.removeWaker table) x true).trans (total_removeWaker (hgiven table rfl))

variable [DecidableEq T]

/-- A step of the task that leaves the queues alone. -/
theorem total_act {s s' : References T S} {a : Action T} (hstep : s.act a = some s')
    (ha : ¬ MovesEntry a) : s'.count = s.count ∧ s'.total = s.total := by
  obtain ⟨sys, hsys, rfl⟩ := Option.map_eq_some_iff.mp hstep
  have htotal := total_setSys s sys
  rw [(effect_of_step hsys).queued_eq ha] at htotal
  exact ⟨rfl, Nat.add_right_cancel htotal⟩

/-- `schedule` takes the reference that it was called with. -/
theorem total_schedule {s s' : References T S} (hstep : s.schedule t table = some s') :
    s'.count = s.count ∧ s'.total = s.total + 1 := by
  unfold schedule at hstep
  split at hstep
  · rename_i hfree
    have hnothing : s.holds t = .nothing := by
      unfold isFree at hfree
      simp_all
    have hact := total_act hstep (by cases table <;> exact id)
    have hset := total_setHolds s t .waking
    rw [hnothing] at hset
    exact ⟨hact.1, hact.2.trans hset⟩
  · cases hstep

/-- A push moves the reference into the queue, or drops it, or panics with it. -/
theorem counted_afterPush {s : References T S} {fits : Bool} {sys : Sys T} (h : Counted s)
    (hcall : s.inCall t = true) (hstep : s.sys.step (.push t fits) = some sys) :
    Counted (s.afterPush t sys) := by
  have hsys := total_setSys s sys
  have hpass := total_setHolds { s with sys } t (s.holds t).passOn
  have hrefs : (s.holds t).refs = (s.holds t).passOn.refs + 1 := by
    rcases Bool.or_eq_true _ _ ▸ hcall with hholds | hholds
    · rw [of_decide_eq_true hholds]
      rfl
    · rw [of_decide_eq_true hholds]
      rfl
  unfold afterPush
  rcases push_cases hstep with ⟨hidle, hqueued⟩ | ⟨hpc, hqueued⟩
  · -- One entry more, and one reference less in the hands of the activity.
    have hne : ¬ sys.queued = s.sys.queued := by omega
    simp only [hidle, hne, if_false, reduceCtorEq]
    refine h.move rfl ?_
    simp only at hpass
    omega
  · rcases hpc with hidle | hover
    · simp only [hidle, hqueued, if_true, if_false, reduceCtorEq]
      refine h.drop rfl ?_
      rw [total_decrement]
      simp only at hpass
      omega
    · simp only [hover, if_true]
      exact h.move rfl (by omega)

/-- A worker clones a reference that it holds, and holds the clone too. -/
theorem counted_hold_more {s : References T S} {before after : Holding} (h : Counted s)
    (hholds : s.holds t = before) (hrefs : after.refs = before.refs + 1)
    (hbefore : before ≠ .nothing) : Counted (s.increment.setHolds t after) := by
  have hset := total_setHolds s.increment t after
  rw [show s.increment.holds t = before from hholds, hrefs] at hset
  refine h.clone (total_pos_of_holds (t := t) (by rwa [hholds])) rfl ?_
  change _ = s.increment.total + 1
  omega

/-- A call on the join handle borrows its reference. -/
theorem counted_borrow {s s' : References T S} {a : Action T} (h : Counted s)
    (hstep : s.borrow t a = some s') (ha : ¬ MovesEntry a) : Counted s' := by
  obtain ⟨⟨howned, -⟩, hact⟩ := Option.ite_none_right_eq_some.mp hstep
  obtain ⟨hcount, htotal⟩ := total_act hact ha
  have hhandle := total_setHandle s (.borrowed t)
  rw [howned] at hhandle
  exact h.move hcount (htotal.trans (Nat.add_right_cancel hhandle))

variable [DecidableEq S] {s s' : References T S}

/-- The steps on the wakers: a clone counts one more, a drop one less. -/
theorem counted_waker (h : Counted s)
    (hstep : s.step (.cloneWaker table) = some s' ∨ s.step (.dropWaker table) = some s' ∨
      s.step (.createSafetyWaker table) = some s') : Counted s' := by
  rcases hstep with hstep | hstep | hstep
  all_goals
    obtain ⟨hpos, rfl⟩ := Option.ite_some_none_eq_some.mp hstep
  · exact h.clone (total_pos_of_wakers hpos) rfl (total_addWaker s.increment table)
  · refine h.drop rfl ?_
    rw [total_decrement, total_removeWaker hpos]
  · -- the same reference under another table
    exact h.move rfl ((total_addWaker (s.removeWaker table) .safety).trans
      (total_removeWaker hpos))

theorem counted_swap (h : Counted s) {x : S} {given : Option Lane}
    (hstep : s.step (.swap x given) = some s') : Counted s' := by
  cases given with
  | none =>
      cases hstep
      exact h.move (by simp only [swap]; split <;> rfl)
        (total_swap fun _ hmem => by cases hmem)
  | some table =>
      obtain ⟨hpos, rfl⟩ := Option.ite_some_none_eq_some.mp hstep
      refine h.move (by simp only [swap]; split <;> rfl) (total_swap ?_)
      rintro _ ⟨⟩
      exact hpos

/-- A wake takes over the reference of its waker, or counts one more for the call. -/
theorem counted_wake (h : Counted s) (t poller : T) (table : Lane)
    (hstep : s.step (.wake t table) = some s' ∨ s.step (.wakeByRef t table) = some s' ∨
      s.step (.wakeContext t poller) = some s') : Counted s' := by
  rcases hstep with hstep | hstep | hstep
  all_goals
    obtain ⟨hcond, hschedule⟩ := Option.ite_none_right_eq_some.mp hstep
    obtain ⟨hcount, htotal⟩ := total_schedule hschedule
  · exact h.move hcount (htotal.trans (total_removeWaker hcond))
  · exact h.clone (total_pos_of_wakers hcond) hcount htotal
  · have hholds : s.holds poller ≠ .nothing := by simp [(holds_of_inFuture hcond).1]
    exact h.clone (total_pos_of_holds hholds) hcount htotal

/-- The reference of the entry goes into the hands of the worker. -/
theorem counted_pop (h : Counted s) {lane : Lane} (hstep : s.step (.pop t lane) = some s') :
    Counted s' := by
  obtain ⟨hfree, hact⟩ := Option.ite_none_right_eq_some.mp hstep
  obtain ⟨sys, hsys, rfl⟩ := Option.map_eq_some_iff.mp hact
  have hset := total_setHolds s t .popped
  have htotal := total_setSys (s.setHolds t .popped) sys
  have hqueued : sys.queued + 1 = (s.setHolds t .popped).sys.queued := pop_queued hsys
  rw [(free_of_isFree hfree).1] at hset
  refine h.move rfl ?_
  simp only [Holding.refs] at hset
  omega

theorem counted_dropRef (h : Counted s) (hstep : s.step (.dropRef t) = some s') : Counted s' := by
  obtain ⟨-, hdrop⟩ := Option.ite_none_right_eq_some.mp hstep
  obtain ⟨held, hheld, rfl⟩ := Option.map_eq_some_iff.mp hdrop
  have htotal := total_setHolds s t held
  rw [refs_afterDrop hheld] at htotal
  refine h.drop rfl ?_
  rw [total_decrement]
  omega

/-- Every step keeps `Counted`, one lemma for each action that moves a reference. -/
theorem counted_step {a : RefAction T S} (h : Counted s) (hstep : s.step a = some s') :
    Counted s' := by
  cases a with
  | spawnReturns =>
      obtain ⟨hspawning, rfl⟩ := Option.ite_some_none_eq_some.mp hstep
      refine h.drop rfl ?_
      simp only [total, decrement, hspawning, Bool.toNat_true, Bool.toNat_false]
      omega
  | cloneWaker table => exact counted_waker h (Or.inl hstep)
  | dropWaker table => exact counted_waker h (Or.inr (Or.inl hstep))
  | createSafetyWaker table => exact counted_waker h (Or.inr (Or.inr hstep))
  | cloneContext t =>
      obtain ⟨hfuture, rfl⟩ := Option.ite_some_none_eq_some.mp hstep
      have hholds : s.holds t ≠ .nothing := by simp [(holds_of_inFuture hfuture).1]
      exact h.clone (total_pos_of_holds hholds) rfl (total_addWaker s.increment .normal)
  | swap x given => exact counted_swap h hstep
  | wake t table => exact counted_wake h t t table (Or.inl hstep)
  | wakeByRef t table => exact counted_wake h t t table (Or.inr (Or.inl hstep))
  | wakeContext t poller => exact counted_wake h t poller .normal (Or.inr (Or.inr hstep))
  | abort t | attach t => exact counted_borrow h hstep id
  | takeResult | advance t | poll t ready =>
      obtain ⟨-, hact⟩ := Option.ite_none_right_eq_some.mp hstep
      obtain ⟨hcount, htotal⟩ := total_act hact id
      exact h.move hcount htotal
  | handleReturns t =>
      obtain ⟨⟨hborrowed, -⟩, rfl⟩ := Option.ite_some_none_eq_some.mp hstep
      have htotal := total_setHandle s .owned
      rw [hborrowed] at htotal
      exact h.move rfl (Nat.add_right_cancel htotal)
  | dropHandle =>
      obtain ⟨howned, rfl⟩ := Option.ite_some_none_eq_some.mp hstep
      have htotal := total_setHandle s .dropped
      rw [howned] at htotal
      exact h.drop rfl htotal
  | pop t lane => exact counted_pop h hstep
  | createWaker t | setRunningTask t =>
      obtain ⟨hholds, rfl⟩ := Option.ite_some_none_eq_some.mp hstep
      exact counted_hold_more h hholds rfl (by decide)
  | push t fits =>
      obtain ⟨hcall, hpush⟩ := Option.ite_none_right_eq_some.mp hstep
      obtain ⟨sys, hsys, rfl⟩ := Option.map_eq_some_iff.mp hpush
      exact counted_afterPush h hcall hsys
  | dropRef t => exact counted_dropRef h hstep

end Counts

end Kyron.Proofs.Task
