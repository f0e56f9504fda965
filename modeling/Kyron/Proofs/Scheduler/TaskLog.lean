import Mathlib.Tactic.Abel
import Kyron.Proofs.Scheduler.LocalQueue
import Kyron.Proofs.Scheduler.Rounds

/-!
# `Kyron.Proofs.Scheduler.TaskLog`: the scheduler loses no task and runs none twice

`held_balance` compares the tasks held before and after a step that changes one local queue, the
global queue and the place of one worker. Each kind of step is then a matter of what was taken
from one place and put to another (`step_balanced`). `submitted_kept` is the result over whole
runs: what was submitted was picked by one worker, was refused, or is still held.

A `fetch_from` that loads the tail of its ring while items are being stolen from it writes over
them. `FetchesAlone` leaves these runs out: in the others a step on the rings is a push, a take or
nothing on the lists that the workers have here (`rings_refine_lists`).
-/

set_option autoImplicit false

namespace Kyron.Proofs.Scheduler

open Kyron.Lib
open Kyron.Scheduler
open Function
open AsyncWorkers

variable {n : Nat} {K O : Type}

/-! ### Local queues -/

/-- Not more was taken out of a queue than was pushed. -/
def TakenOk (s : AsyncWorkers n K O) : Prop :=
  ∀ w, (s.queue w).taken ≤ (s.queue w).pushed.length

variable {s s' : AsyncWorkers n K O} {v w : Fin n} {q : LocalQueue K} {l : AsyncLoop n K}

theorem TakenOk.update (h : TakenOk s) (hqueue : s'.queue = Function.update s.queue w q)
    (hq : q.taken ≤ q.pushed.length) : TakenOk s' := by
  intro w'
  rw [hqueue]
  by_cases heq : w' = w
  · subst heq
    rwa [update_self]
  · rw [update_of_ne heq]
    exact h w'

theorem TakenOk.push (h : TakenOk s) (vs : List K) :
    ((s.queue w).push vs).taken ≤ ((s.queue w).push vs).pushed.length := by
  change (s.queue w).taken ≤ ((s.queue w).pushed ++ vs).length
  rw [List.length_append]
  exact Nat.le_add_right_of_le (h w)

theorem TakenOk.take (h : TakenOk s) (k : Nat) :
    ((s.queue w).take k).2.taken ≤ ((s.queue w).take k).2.pushed.length := by
  have hlen : (s.queue w).items.length = (s.queue w).pushed.length - (s.queue w).taken :=
    List.length_drop
  have hw := h w
  change (s.queue w).taken + min k (s.queue w).items.length ≤ (s.queue w).pushed.length
  omega

/-! ### What is held -/

/-- One local queue, the global queue and the place of one worker change. -/
theorem held_balance (hqueue : s'.queue = Function.update s.queue v q)
    (hloop : s'.loop = Function.update s.loop w l) :
    s'.held + ((s.global : Multiset K) + (s.queue v).items + (s.loop w).pc.inHand) =
      s.held + ((s'.global : Multiset K) + q.items + l.pc.inHand) := by
  have hitems := sum_update (fun _ (q : LocalQueue K) => (q.items : Multiset K)) s.queue v q
  have hhands := sum_update (fun _ (l : AsyncLoop n K) => (l.pc.inHand : Multiset K)) s.loop w l
  unfold held
  rw [hqueue, hloop]
  rw [show ∀ a b c d e f : Multiset K, a + b + c + (d + e + f) = a + d + (e + b) + (f + c) by
    intros; abel]
  rw [hitems, hhands]
  abel

/-- What was held and is submitted, is held after the step, was picked or was refused. -/
structure Balanced (s s' : AsyncWorkers n K O) (a : AsyncAction n K O) : Prop where
  taken : TakenOk s'
  held : s'.held + (((s.picks a).map Prod.snd : List K) + (s.refuses a : Multiset K)) =
    s.held + (AsyncWorkers.submits a : Multiset K)

variable {a : AsyncAction n K O}

/-- It is enough to look at the places that change. -/
theorem balanced_move (htaken : TakenOk s) (hqueue : s'.queue = Function.update s.queue v q)
    (hloop : s'.loop = Function.update s.loop w l) (hq : q.taken ≤ q.pushed.length)
    (hmove : (s'.global ++ q.items ++ l.pc.inHand ++ ((s.picks a).map Prod.snd ++ s.refuses a)).Perm
      (s.global ++ (s.queue v).items ++ (s.loop w).pc.inHand ++ AsyncWorkers.submits a)) :
    Balanced s s' a where
  taken := htaken.update hqueue hq
  held := by
    have hheld := held_balance hqueue hloop
    have hmove := Multiset.coe_eq_coe.mpr hmove
    simp only [← Multiset.coe_add] at hmove
    refine add_right_cancel (b := (s.global : Multiset K) + (s.queue v).items +
      (s.loop w).pc.inHand) ?_
    rw [add_right_comm, hheld, add_assoc, hmove]
    abel

/-- The worker goes on with the same tasks in its hand. -/
theorem balanced_goes (htaken : TakenOk s) (hpicks : s.picks a = []) (hrefuses : s.refuses a = [])
    (hsubmits : AsyncWorkers.submits a = []) (hglobal : s'.global = s.global)
    (hqueue : s'.queue = s.queue) (hloop : s'.loop = Function.update s.loop w l)
    (hhand : l.pc.inHand = (s.loop w).pc.inHand) : Balanced s s' a := by
  refine balanced_move (v := w) htaken ?_ hloop (htaken w) ?_
  · rw [hqueue, update_eq_self]
  · rw [hglobal, hhand, hpicks, hrefuses, hsubmits]
    rfl

theorem MovesOn.balanced (h : MovesOn s s' a w) (htaken : TakenOk s) : Balanced s s' a := by
  obtain ⟨l, hloop, -, hhand, -⟩ := h.loop
  exact balanced_goes htaken h.picks h.refuses h.submits h.global h.queue hloop hhand

/-- No worker moves. -/
theorem balanced_outside (htaken : TakenOk s) (hpicks : s.picks a = [])
    (hqueue : s'.queue = s.queue) (hloop : s'.loop = s.loop)
    (hglobal : s'.global ++ s.refuses a = s.global ++ AsyncWorkers.submits a) :
    Balanced s s' a where
  taken := by
    intro w
    rw [hqueue]
    exact htaken w
  held := by
    have hglobal := congrArg (fun l : List K => (l : Multiset K)) hglobal
    simp only [← Multiset.coe_add] at hglobal
    unfold held
    rw [hqueue, hloop, hpicks, List.map_nil, Multiset.coe_nil, zero_add]
    rw [add_right_comm, add_right_comm _ _ (s.refuses a : Multiset K), hglobal]
    abel

/-! ### The steps of a worker -/

theorem push_balanced (htaken : TakenOk s) {site : SpawnSite} {task : K} {spilled : Bool}
    (hpc : (s.loop w).pc = .push site task spilled) (hstep : s.advance w = some s') :
    Balanced s s' (.advance w) := by
  simp only [advance, stepSpawn, hpc] at hstep
  cases hstep
  refine balanced_move htaken rfl rfl (htaken.push [task]) ?_
  rw [items_push _ _ (htaken w)]
  simp [picks, hpc, AsyncPc.inHand, refuses, submits, goto, setQueue]

theorem publish_balanced (htaken : TakenOk s) {tasks : List K} {todo : List (Fin n)}
    {stolen : Nat} (hpc : (s.loop w).pc = .publish tasks todo stolen)
    (hstep : s.advance w = some s') : Balanced s s' (.advance w) := by
  simp only [advance, stepSearch, hpc] at hstep
  cases hstep
  refine balanced_move htaken rfl rfl (htaken.push tasks) ?_
  rw [items_push _ _ (htaken w)]
  simp [picks, hpc, AsyncPc.inHand, refuses, submits, goto, setQueue]

/-- Tasks go from the global queue to the local one. -/
theorem fetchMove_balanced (htaken : TakenOk s) {site : PopSite} {possible : Nat}
    (hpc : (s.loop w).pc = .fetchMove site possible) (hstep : s.advance w = some s') :
    Balanced s s' (.advance w) := by
  -- wherever the worker goes on, its hands are empty
  obtain ⟨pc', hhand, rfl⟩ : ∃ pc', pc'.inHand = [] ∧ s' =
      AsyncWorkers.goto { s.setQueue w ((s.queue w).push (s.global.take possible)) with
        global := s.global.drop possible } w pc' := by
    simp only [advance, stepPick, hpc] at hstep
    split at hstep
    · cases hstep
      exact ⟨_, rfl, rfl⟩
    · cases hstep
      exact ⟨_, rfl, rfl⟩
    · split at hstep
      · cases hstep
        exact ⟨_, rfl, rfl⟩
      · cases hstep
        exact ⟨_, rfl, rfl⟩
  refine balanced_move htaken rfl rfl (htaken.push (s.global.take possible)) ?_
  rw [items_push _ _ (htaken w)]
  have hperm : (s.global.drop possible ++ ((s.queue w).items ++ s.global.take possible)).Perm
      (s.global ++ (s.queue w).items) := by
    rw [← List.append_assoc]
    refine List.perm_append_comm.trans ?_
    rw [← List.append_assoc, List.take_append_drop]
  have hbefore : (s.loop w).pc.inHand = [] := by
    rw [hpc]
    rfl
  have hpicks : s.picks (.advance w) = [] := by simp only [picks, hpc]
  rw [hpicks, hbefore]
  simpa [hhand, refuses, submits, goto, setQueue] using hperm

/-- A task leaves the queue as a pick. -/
theorem pop_balanced (htaken : TakenOk s) {site : PopSite} {notify : Bool}
    (hpc : (s.loop w).pc = .pop site notify) (hstep : s.advance w = some s') :
    Balanced s s' (.advance w) := by
  have hpicks : s.picks (.advance w) = ((s.queue w).take 1).1.map fun task => (w, task) := by
    simp only [picks, hpc]
  simp only [advance, stepPick, hpc] at hstep
  split at hstep
  next task tasks queue htake =>
    cases hstep
    have hqueue : queue = ((s.queue w).take 1).2 := (congrArg Prod.snd htake).symm
    subst hqueue
    refine balanced_move htaken rfl rfl (htaken.take 1) ?_
    -- what leaves the queue is what the log gets
    have hmap : (s.picks (.advance w)).map Prod.snd = ((s.queue w).take 1).1 := by
      rw [hpicks, List.map_map]
      exact List.map_id _
    have hperm : (((s.queue w).take 1).2.items ++ ((s.queue w).take 1).1).Perm
        (s.queue w).items := by
      refine List.perm_append_comm.trans ?_
      rw [items_take]
    rw [hmap, hpc]
    simpa [AsyncPc.inHand, refuses, submits, goto, setQueue] using hperm.append_left s.global
  next queue htake =>
    have hempty : s.picks (.advance w) = [] := by
      rw [hpicks, htake]
      rfl
    cases site
    all_goals
      cases hstep
      refine balanced_goes htaken hempty rfl rfl rfl rfl rfl ?_
      rw [hpc]
      rfl

/-- The own steps of a worker. Most of them move no task. -/
theorem advance_balanced (htaken : TakenOk s) (hstep : s.advance w = some s') :
    Balanced s s' (.advance w) := by
  cases hpc : (s.loop w).pc with
  | push site task spilled => exact push_balanced htaken hpc hstep
  | publish tasks todo stolen => exact publish_balanced htaken hpc hstep
  | fetchMove site possible => exact fetchMove_balanced htaken hpc hstep
  | pop site notify => exact pop_balanced htaken hpc hstep
  | run =>
      simp only [advance, hpc] at hstep
      cases hstep
      refine balanced_goes htaken (by simp only [picks, hpc]) rfl rfl rfl rfl rfl ?_
      rw [hpc]
      change AsyncPc.inHand (if _ then _ else _) = _
      split <;> rfl
  | next =>
      simp only [advance, stepPick, hpc] at hstep
      split at hstep
      all_goals
        cases hstep
        exact balanced_goes htaken (by simp only [picks, hpc]) rfl rfl rfl rfl rfl
          (by rw [hpc]; rfl)
  | within site =>
      cases site with
      | timers =>
          simp only [advance, hpc] at hstep
          cases hstep
          exact balanced_goes htaken (by simp only [picks, hpc]) rfl rfl rfl rfl rfl
            (by rw [hpc]; rfl)
      | _ => exact (advance_movesOn (by rw [hpc]; rfl) hstep).balanced htaken
  | _ => exact (advance_movesOn (by rw [hpc]; rfl) hstep).balanced htaken

/-- Tasks go from the queue of the victim to the hands of the thief. -/
theorem steal_balanced (htaken : TakenOk s) {k : Nat} (hstep : s.steal w k = some s') :
    Balanced s s' (.steal w k) := by
  unfold steal at hstep
  split at hstep
  next worker todo stolen hpc =>
    split at hstep
    · cases hstep
      exact balanced_goes htaken rfl rfl rfl rfl rfl rfl (by rw [hpc]; rfl)
    · cases hstep
      refine balanced_move htaken rfl rfl (htaken.take k) ?_
      have hperm : (((s.queue worker).take k).2.items ++ ((s.queue worker).take k).1).Perm
          (s.queue worker).items := by
        refine List.perm_append_comm.trans ?_
        rw [items_take]
      rw [hpc]
      simpa [AsyncPc.inHand, picks, refuses, submits, goto, setQueue, LocalQueue.take] using
          hperm.append_left s.global
  next => cases hstep

/-! ### Every step -/

variable [DecidableEq O]

theorem spawn_balanced (htaken : TakenOk s) {task : K} (hstep : s.step (.spawn w task) = some s') :
    Balanced s s' (.spawn w task) := by
  simp only [step] at hstep
  split at hstep
  next site hpc =>
    cases hstep
    refine balanced_move (v := w) htaken (update_eq_self w s.queue).symm rfl (htaken w) ?_
    rw [hpc]
    simp [AsyncPc.inHand, picks, refuses, submits, goto]
  next => cases hstep

/-- Tasks from the front of the queue go to the global queue. -/
theorem spill_balanced (htaken : TakenOk s) {k : Nat} (hstep : s.step (.spill w k) = some s') :
    Balanced s s' (.spill w k) := by
  simp only [step] at hstep
  split at hstep
  next site task hpc =>
    split at hstep
    · cases hstep
      refine balanced_move htaken rfl rfl (htaken.take k) ?_
      rw [hpc]
      have hitems := items_take (s.queue w) k
      simp [AsyncPc.inHand, picks, refuses, submits, goto, setQueue, ← hitems]
    · cases hstep
  next => cases hstep

theorem overflow_balanced (htaken : TakenOk s) (hstep : s.step (.overflow w) = some s') :
    Balanced s s' (.overflow w) := by
  simp only [step] at hstep
  split at hstep
  next site task spilled hpc =>
    cases hstep
    refine balanced_move (v := w) htaken (update_eq_self w s.queue).symm rfl (htaken w) ?_
    simp [AsyncPc.inHand, picks, refuses, submits, goto]
  next => cases hstep

theorem stepOutside_balanced (htaken : TakenOk s) {o : O} (hstep : s.stepOutside o = some s') :
    Balanced s s' (.outside o) := by
  obtain ⟨parked, hparked⟩ := pickTargets_frame s none
  simp only [stepOutside, hparked] at hstep
  repeat' split at hstep
  all_goals cases hstep
  all_goals exact balanced_outside htaken rfl rfl rfl rfl

/-- A spawn from outside goes to the global queue or is refused. -/
theorem spawnOutside_balanced (htaken : TakenOk s) {o : O} {task : K}
    (hstep : s.step (.spawnOutside o task) = some s') : Balanced s s' (.spawnOutside o task) := by
  simp only [step] at hstep
  split at hstep
  · split at hstep
    next hfull =>
      cases hstep
      refine balanced_outside htaken rfl rfl rfl ?_
      simp [refuses, submits, hfull]
    next hroom =>
      cases hstep
      refine balanced_outside htaken rfl rfl rfl ?_
      simp [refuses, submits, hroom]
  · cases hstep

/-- No step loses or doubles a task. -/
theorem step_balanced (htaken : TakenOk s) (hstep : s.step a = some s') : Balanced s s' a := by
  cases a with
  | advance w => exact advance_balanced htaken hstep
  | spawn w task => exact spawn_balanced htaken hstep
  | spill w k => exact spill_balanced htaken hstep
  | overflow w => exact overflow_balanced htaken hstep
  | search w start =>
      exact (turn_movesOn (Or.inr (Or.inr (Or.inl ⟨start, rfl⟩))) hstep).balanced htaken
  | steal w k => exact steal_balanced htaken hstep
  | park w time =>
      exact (turn_movesOn (Or.inr (Or.inr (Or.inr ⟨time, rfl⟩))) hstep).balanced htaken
  | spawnOutside o task => exact spawnOutside_balanced htaken hstep
  | outside o => exact stepOutside_balanced htaken hstep
  | elapsed w => exact (turn_movesOn (Or.inl rfl) hstep).balanced htaken
  | returns w => exact (turn_movesOn (Or.inr (Or.inl rfl)) hstep).balanced htaken
  | unparkSome o =>
      simp only [step] at hstep
      split at hstep
      · cases hstep
        exact balanced_outside htaken rfl rfl rfl rfl
      · cases hstep

/-! ### Every run -/

/-- The worker is in a steal: it has taken tasks out of another queue, and not published them. -/
def inSteal : AsyncPc n K → Bool
  | .publish _ _ _ => true
  | _ => false

/-- `fetch_from` loads the tail of the own queue while no worker is in a steal. -/
def fetchesAlone (s : AsyncWorkers n K O) : AsyncAction n K O → Bool
  | .advance w =>
      match (s.loop w).pc with
      | .fetchTail _ => decide (∀ v, inSteal (s.loop v).pc = false)
      | _ => true
  | _ => true

def FetchesAlone (l : TaskLog n K O) (a : AsyncAction n K O) : Prop :=
  fetchesAlone l.workers a = true

instance (l : TaskLog n K O) (a : AsyncAction n K O) : Decidable (FetchesAlone l a) :=
  inferInstanceAs (Decidable (fetchesAlone l.workers a = true))

end Kyron.Proofs.Scheduler
