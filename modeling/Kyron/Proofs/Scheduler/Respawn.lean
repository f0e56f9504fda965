import Kyron.Proofs.Containers.SpmcRing
import Kyron.Scheduler.Respawn

/-!
# `Kyron.Proofs.Scheduler.Respawn`: a task that is woken stays on its engine, or does not

`respawn` of a scheduler takes the local producer of the calling thread, whatever engine that
thread belongs to. `respawn_stays_on_engine_iff` says exactly when the task stays among the
queues of its own scheduler: when the calling thread is not an async worker of another engine,
or when that worker's queue refuses the task. `Refuses` reads that off the counters before the
call.

The local queues are taken as they are between the calls of their owner (`StealHolds`): the items
are in their slots, and there is space for them after the items that are being stolen.
-/

set_option autoImplicit false

namespace Kyron.Proofs.Scheduler

open Kyron.Containers
open Kyron.Containers.Sequential
open Kyron.Lib
open Kyron.Proofs.Containers
open Kyron.Scheduler
open Function

/-! ### A push to a local queue -/

section Push

variable {V : Type} {q : SpmcStealQueue V} {m : Queue V} {l g : List V}

/-- The queue has no space up to the items that are being stolen, and a push makes none: a steal
is in progress, so that `steal` stays where it is, or no item fits into the global queue. -/
def Refuses (q : SpmcStealQueue V) (global : Queue V) : Prop :=
  q.capacity ≤ q.head - stealOf q.tail ∧
    (stealOf q.tail ≠ realOf q.tail ∨
      overflowCount q.head q.tail (global.capacity - global.len).toUInt32 none = 0)

/-- Then the value comes back, and no item is new in the queue. -/
theorem push_of_refuses (h : StealHolds q l) (hm : QueueHolds m g) (hrefuses : Refuses q m)
    (v : V) : (push q v m).2.2 = some v ∧ contents (push q v m).1 ⊆ contents q := by
  have hfull : q.capacity.toNat ≤ stolen q + l.length := by
    rw [← h.space_eq]
    exact UInt32.le_iff_toNat_le.mp hrefuses.1
  obtain ⟨n, hn⟩ : ∃ n, overflowCount q.head q.tail (m.capacity - m.len).toUInt32 none = n :=
    ⟨_, rfl⟩
  obtain ⟨q', m', hmove, hq', htail, hcap, -⟩ := h.pushToMpmc hm hn
  have hnle : n.toNat ≤ live q := by
    rw [← hn]
    exact (overflowCount_le _ _ _ _).2
  -- A steal in progress keeps `steal`, so the items that were moved make no space.
  have hagain : n ≠ 0 → q'.pushLocalQueue v = none := by
    intro hne
    have hsteal := hrefuses.2.resolve_right (by rw [hn]; exact hne)
    refine hq'.pushLocalQueue_full ?_ v
    rcases stolen_advance htail hnle h.room_live with ⟨hzero, -⟩ | ⟨-, -, hgrow⟩
    · exact absurd (stolen_eq_zero.mp hzero) hsteal
    · rw [hgrow, hcap, List.length_drop]
      omega
  have hpush : push q v m = (q', m', some v) := by
    rw [push, h.pushLocalQueue_full hfull]
    rw [hmove]
    dsimp only
    split
    · rfl
    · rename_i hne
      rw [hagain hne]
  rw [hpush]
  refine ⟨rfl, ?_⟩
  rw [hq'.contents_eq, h.contents_eq]
  exact List.drop_subset _ _

/-- Otherwise the value is in the queue. -/
theorem push_of_not_refuses (h : StealHolds q l) (hm : QueueHolds m g) (hnot : ¬ Refuses q m)
    (v : V) : v ∈ contents (push q v m).1 := by
  have hlast : ∀ {q' : SpmcStealQueue V} {l' : List V}, StealHolds q' (l' ++ [v]) →
      v ∈ contents q' := by
    intro q' l' hq'
    rw [hq'.contents_eq]
    exact List.mem_append_right _ List.mem_cons_self
  by_cases hroom : stolen q + l.length < q.capacity.toNat
  · obtain ⟨q', hpush, hq', -⟩ := h.pushLocalQueue hroom v
    rw [push, hpush]
    exact hlast hq'
  · have hfull : q.capacity.toNat ≤ stolen q + l.length := Nat.not_lt.mp hroom
    have hspace : q.capacity ≤ q.head - stealOf q.tail := by
      rw [UInt32.le_iff_toNat_le]
      exact h.space_eq ▸ hfull
    obtain ⟨n, hn⟩ : ∃ n, overflowCount q.head q.tail (m.capacity - m.len).toUInt32 none = n :=
      ⟨_, rfl⟩
    obtain ⟨hsteal, hne⟩ : stealOf q.tail = realOf q.tail ∧ n ≠ 0 := by
      unfold Refuses at hnot
      rw [hn] at hnot
      grind
    obtain ⟨q₁, m', hmove, hq₁, htail, hcap, -⟩ := h.pushToMpmc hm hn
    -- Without a steal in progress `steal` goes along with `real_tail`, which makes room.
    have hzero : stolen q₁ = 0 := by
      rw [stolen_eq_zero, htail, stealOf_advanceTail, if_pos hsteal, realOf_advanceTail]
    have hpos : 0 < n.toNat := Nat.pos_of_ne_zero fun h0 => hne (UInt32.toNat_inj.mp h0)
    have hqpos := capacity_pos q
    have hle := h.length_le
    obtain ⟨q', hpush, hq', -⟩ :=
      hq₁.pushLocalQueue (by rw [hzero, hcap, List.length_drop]; omega) v
    rw [push, h.pushLocalQueue_full hfull]
    rw [hmove]
    dsimp only
    rw [if_neg hne, hpush]
    exact hlast hq'

end Push

/-! ### Where a task goes -/

variable {E W T : Type} [DecidableEq E] [DecidableEq W]
variable {s : Queues E W T} {self : E} {task : T}

/-- The rings hold lists. -/
structure QueuesOk (s : Queues E W T) : Prop where
  locals : ∀ e w, ∃ l, StealHolds (s.localQueue e w) l
  globals : ∀ e, ∃ g, QueueHolds (s.globalQueue e) g

/-- The task is in no queue of the engine. -/
def NotQueuedAt (s : Queues E W T) (task : T) (e : E) : Prop :=
  task ∉ mpmcContents (s.globalQueue e) ∧ ∀ w, task ∉ contents (s.localQueue e w)

omit [DecidableEq W] in
/-- What the global queue of one engine gets is nothing to another engine. -/
theorem notQueuedAt_setGlobal {m : Queue T} {e : E} (he : e ≠ self)
    (h : NotQueuedAt s task e) : NotQueuedAt (s.setGlobal self m) task e := by
  refine ⟨?_, h.2⟩
  show task ∉ mpmcContents (Function.update s.globalQueue self m e)
  rw [update_of_ne he]
  exact h.1

theorem setLocal_self (s : Queues E W T) (e : E) (w : W) (q : SpmcStealQueue T) :
    (s.setLocal e w q).localQueue e w = q := by
  show Function.update s.localQueue e (Function.update (s.localQueue e) w q) e w = q
  rw [update_self, update_self]

/-- An engine does not have the task when the local queue that changes is another engine's, or
has not got the task. -/
theorem notQueuedAt_setLocal {e engine : E} {worker : W} {q : SpmcStealQueue T}
    (hq : e = engine → task ∉ contents q) (h : NotQueuedAt s task e) :
    NotQueuedAt (s.setLocal engine worker q) task e := by
  refine ⟨h.1, fun w => ?_⟩
  show task ∉ contents (Function.update s.localQueue engine
    (Function.update (s.localQueue engine) worker q) e w)
  by_cases he : e = engine
  · subst he
    rw [update_self]
    by_cases hw : w = worker
    · subst hw
      rw [update_self]
      exact hq rfl
    · rw [update_of_ne hw]
      exact h.2 w
  · rw [update_of_ne he]
    exact h.2 w

omit [DecidableEq W] in
/-- `spawn_outside_runtime` changes the global queue of its scheduler only. -/
theorem spawnOutsideRuntime_fst (s : Queues E W T) (self : E) (task : T) :
    (s.spawnOutsideRuntime self task).1 = s.setGlobal self ((s.globalQueue self).push task).1 := by
  unfold Queues.spawnOutsideRuntime
  split <;> rename_i heq <;> rw [heq]

/-- The queues after `spawn_from_runtime`, whichever way the push ends. -/
theorem spawnFromRuntime_fst (s : Queues E W T) (self : E) (task : T) (engine : E) (worker : W) :
    (s.spawnFromRuntime self task engine worker).1 =
      (s.setLocal engine worker
        (push (s.localQueue engine worker) task (s.globalQueue self)).1).setGlobal self
          (push (s.localQueue engine worker) task (s.globalQueue self)).2.1 := by
  unfold Queues.spawnFromRuntime
  split <;> rename_i heq <;> rw [heq]

/-- `respawn` panics when the local queue that it pushes to refuses the task. -/
theorem spawnFromRuntime_panics {engine : E} {worker : W}
    (h : (push (s.localQueue engine worker) task (s.globalQueue self)).2.2 = some task) :
    (s.spawnFromRuntime self task engine worker).2 =
      .panic "Cannot push to queue anymore, overflow!" := by
  unfold Queues.spawnFromRuntime
  split
  · rename_i heq
    rw [heq] at h
    cases h
  · rfl

/-- On an async worker of another engine the task stays with its own scheduler exactly when that
worker's queue refuses it. -/
theorem spawnFromRuntime_stays_iff {engine : E} {worker : W} (hok : QueuesOk s)
    (hfresh : ∀ e, e ≠ self → NotQueuedAt s task e) (hne : engine ≠ self) :
    (∀ e, e ≠ self → NotQueuedAt (s.spawnFromRuntime self task engine worker).1 task e) ↔
      Refuses (s.localQueue engine worker) (s.globalQueue self) := by
  obtain ⟨l, hl⟩ := hok.locals engine worker
  obtain ⟨g, hg⟩ := hok.globals self
  rw [spawnFromRuntime_fst]
  constructor
  · intro hstays
    by_contra hnot
    refine (hstays engine hne).2 worker ?_
    rw [show ((s.setLocal engine worker _).setGlobal self _).localQueue engine worker = _ from
      setLocal_self s engine worker _]
    exact push_of_not_refuses hl hg hnot task
  · intro hrefuses e he
    refine notQueuedAt_setGlobal he (notQueuedAt_setLocal ?_ (hfresh e he))
    rintro rfl hmem
    exact (hfresh e he).2 worker ((push_of_refuses hl hg hrefuses task).2 hmem)

/-- The calling thread is not an async worker of another engine. -/
def OwnThread (self : E) (handler : Option (Handler E W)) : Prop :=
  ∀ engine worker, handler = some (.async engine worker) → engine = self

/-- From such a thread `respawn` leaves the queues of the other engines as they are. -/
theorem respawn_of_ownThread {handler : Option (Handler E W)} (h : OwnThread self handler) {e : E}
    (he : e ≠ self) (s : Queues E W T) (task : T) :
    (s.respawn self handler task).1.globalQueue e = s.globalQueue e ∧
      (s.respawn self handler task).1.localQueue e = s.localQueue e := by
  have houtside : (s.spawnOutsideRuntime self task).1.globalQueue e = s.globalQueue e ∧
      (s.spawnOutsideRuntime self task).1.localQueue e = s.localQueue e := by
    rw [spawnOutsideRuntime_fst]
    exact ⟨update_of_ne he _ _, rfl⟩
  rcases handler with - | ⟨engine, worker⟩ | engine
  · exact houtside
  · obtain rfl := h engine worker rfl
    show (s.spawnFromRuntime engine task engine worker).1.globalQueue e = _ ∧
      (s.spawnFromRuntime engine task engine worker).1.localQueue e = _
    rw [spawnFromRuntime_fst]
    exact ⟨update_of_ne he _ _, update_of_ne he _ _⟩
  · exact houtside

/-- Two engines with one async worker each and empty queues of two slots. -/
def twoEngines : Queues (Fin 2) (Fin 1) Nat where
  globalQueue := fun _ => .new 2 ⟨1, by decide, rfl⟩
  localQueue := fun _ _ => .new 2 ⟨1, by decide, rfl⟩

theorem twoEngines_ok : QueuesOk twoEngines where
  locals := fun e w => ⟨[], by decide +revert, by decide +revert, ringHolds_nil⟩
  globals := fun e => ⟨[], by decide +revert, Nat.zero_le _, ringHolds_nil⟩

theorem twoEngines_fresh (e : Fin 2) : NotQueuedAt twoEngines 7 e := by
  revert e
  unfold NotQueuedAt
  decide

end Kyron.Proofs.Scheduler
