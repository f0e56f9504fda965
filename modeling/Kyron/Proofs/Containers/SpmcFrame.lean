import Kyron.Containers.SpmcSystem
import Kyron.Proofs.Containers.SpmcQueue

/-!
# `Kyron.Proofs.Containers.SpmcFrame`: the steps of an owner, and what they leave to the others

A step of an owner begins an operation or goes on with the one it is in (`ownStep_cases`).

A step of one thread keeps the places of all others. Of another owner's queue it changes at most
the slots and the tail: a claim keeps `steal`, and the end of a steal aligns it with `real_tail`.
So what an owner has found out about its own `head` and about the space in front of `steal` stays
true until its own next step.
-/

set_option autoImplicit false

namespace Kyron.Proofs.Containers

open Kyron.Containers
open Kyron.Lib
open Function
open SpmcSystem

variable {Q V : Type} [DecidableEq Q]
variable {s s' : SpmcSystem Q V} {t u : Q} {a : SpmcAction Q V}

/-- Whose step it is. -/
def actor : SpmcAction Q V → Option Q
  | .push t _ | .pop t | .steal t _ _ | .fetch t | .advance t => some t
  | .mpmcPush _ => none

/-- The first places of the operations. -/
inductive IsStart (t : Q) : Pc Q V → Prop
  | push (v : V) : IsStart t (.pushLoadHead v false)
  | pop : IsStart t .popLoadTail
  | steal (src : Q) (divider : Option UInt8) (other : src ≠ t) :
      IsStart t (.stealLoadDstHead src divider)
  | fetch : IsStart t .fetchLoadHead

/-- A step inside an operation. -/
theorem advance_cases (hstep : s.step (.advance u) = some s') :
    s.advancePush u = some s' ∨ s.advancePop u = some s' ∨ s.advanceSteal u = some s' ∨
      s.advanceFetch u = some s' := by
  simp only [step, Option.orElse_eq_orElse, Option.orElse_eq_or, Option.or_eq_some_iff] at hstep
  rcases hstep with hpush | ⟨-, hpop | ⟨-, hsteal | ⟨-, hfetch⟩⟩⟩
  · exact Or.inl hpush
  · exact Or.inr (Or.inl hpop)
  · exact Or.inr (Or.inr (Or.inl hsteal))
  · exact Or.inr (Or.inr (Or.inr hfetch))

/-- An owner begins an operation, or goes on. -/
theorem ownStep_cases (ha : actor a = some t) (hstep : s.step a = some s') :
    (s.threads t = .idle ∧ ∃ pc', IsStart t pc' ∧ s' = s.goto t pc') ∨ a = .advance t := by
  cases a with
  | mpmcPush v => cases ha
  | advance u =>
      cases ha
      exact Or.inr rfl
  | push u v | pop u | fetch u =>
      cases ha
      simp only [step] at hstep
      split at hstep
      · rename_i hidle
        cases hstep
        exact Or.inl ⟨hidle, _, by constructor, rfl⟩
      · cases hstep
  | steal u src divider =>
      cases ha
      simp only [step] at hstep
      split at hstep
      · rename_i hidle
        split at hstep
        · cases hstep
        · rename_i hother
          cases hstep
          exact Or.inl ⟨hidle, _, .steal src divider hother, rfl⟩
      · cases hstep

/-- What a thread that is not the owner may do to a queue. -/
structure FromOutside (q q' : SpmcStealQueue V) : Prop where
  head : q'.head = q.head
  capacity : q'.capacity = q.capacity
  steal : stealOf q'.tail = stealOf q.tail ∨ q'.tail = alignTail q.tail

theorem FromOutside.refl (q : SpmcStealQueue V) : FromOutside q q := ⟨rfl, rfl, Or.inl rfl⟩

/-- A step of a thread changes its own place and one queue, which keeps its capacity. -/
def OneQueue (s s' : SpmcSystem Q V) (u : Q) : Prop :=
  ∃ x q' pc', s'.queues = Function.update s.queues x q' ∧
    s'.threads = Function.update s.threads u pc' ∧ q'.capacity = (s.queues x).capacity ∧
    (x = u ∨ FromOutside (s.queues x) q')

theorem OneQueue.own (q' : SpmcStealQueue V) {pc' : Pc Q V}
    (hqueues : s'.queues = Function.update s.queues u q')
    (hthreads : s'.threads = Function.update s.threads u pc')
    (hcapacity : q'.capacity = (s.queues u).capacity) : OneQueue s s' u :=
  ⟨u, q', pc', hqueues, hthreads, hcapacity, Or.inl rfl⟩

theorem OneQueue.none {pc' : Pc Q V} (hqueues : s'.queues = s.queues)
    (hthreads : s'.threads = Function.update s.threads u pc') : OneQueue s s' u := by
  refine .own (s.queues u) ?_ hthreads rfl
  rw [hqueues, update_eq_self]

theorem advance_oneQueue (hstep : s.step (.advance u) = some s') : OneQueue s s' u := by
  rcases advance_cases hstep with hstep | hstep | hstep | hstep
  · unfold advancePush at hstep
    dsimp only at hstep
    repeat' split at hstep
    all_goals
      cases hstep
      try first
      | exact .none rfl rfl
      | exact .own _ rfl rfl rfl
  · unfold advancePop at hstep
    dsimp only at hstep
    repeat' split at hstep
    all_goals
      cases hstep
      try first
      | exact .none rfl rfl
      | exact .own _ rfl rfl rfl
  · unfold advanceSteal at hstep
    dsimp only at hstep
    repeat' split at hstep
    all_goals
      cases hstep
      try first
      | exact .none rfl rfl
      | exact .own _ rfl rfl rfl
      | exact ⟨_, _, _, rfl, rfl, rfl, Or.inr ⟨rfl, rfl, Or.inl rfl⟩⟩
      | -- The exchanges compare the tail with the one they replace.
        rename_i htail _
        subst htail
        exact ⟨_, _, _, rfl, rfl, rfl, Or.inr ⟨rfl, rfl, Or.inl (stealOf_claimTail _ _)⟩⟩
      | rename_i htail
        subst htail
        exact ⟨_, _, _, rfl, rfl, rfl, Or.inr ⟨rfl, rfl, Or.inr rfl⟩⟩
  · unfold advanceFetch at hstep
    repeat' split at hstep
    all_goals
      cases hstep
      try first
      | exact .none rfl rfl
      | exact .own _ rfl rfl rfl

theorem step_oneQueue (hstep : s.step a = some s') (ha : actor a = some u) : OneQueue s s' u := by
  rcases ownStep_cases ha hstep with ⟨-, pc', -, rfl⟩ | rfl
  · exact .none rfl rfl
  · exact advance_oneQueue hstep

theorem step_nobody (hstep : s.step a = some s') (hnobody : actor a = none) :
    s'.threads = s.threads ∧ s'.queues = s.queues := by
  cases a with
  | mpmcPush v =>
      simp only [step] at hstep
      repeat' split at hstep
      all_goals
        cases hstep
        try exact ⟨rfl, rfl⟩
  | _ => cases hnobody

/-- A step of another thread, or one of nobody, keeps a thread where it is and its queue as
outsiders may leave it. -/
theorem step_other (hstep : s.step a = some s') (hother : actor a ≠ some t) :
    s'.threads t = s.threads t ∧ FromOutside (s.queues t) (s'.queues t) := by
  cases ha : actor a with
  | none =>
      obtain ⟨hthreads, hqueues⟩ := step_nobody hstep ha
      rw [hthreads, hqueues]
      exact ⟨rfl, .refl _⟩
  | some u =>
      have hne : t ≠ u := by
        intro heq
        rw [ha, heq] at hother
        exact hother rfl
      obtain ⟨x, q', pc', hqueues, hthreads, -, hq'⟩ := step_oneQueue hstep ha
      rw [hqueues, hthreads, update_of_ne hne]
      refine ⟨rfl, ?_⟩
      by_cases hx : t = x
      · subst hx
        rw [update_self]
        exact hq'.resolve_left hne
      · rw [update_of_ne hx]
        exact .refl _

/-- The capacity of a queue never changes. -/
theorem step_capacity (hstep : s.step a = some s') (t : Q) :
    (s'.queues t).capacity = (s.queues t).capacity := by
  cases ha : actor a with
  | none => rw [(step_nobody hstep ha).2]
  | some u =>
      obtain ⟨x, q', pc', hqueues, -, hcapacity, -⟩ := step_oneQueue hstep ha
      rw [hqueues]
      by_cases hx : t = x
      · subst hx
        rw [update_self, hcapacity]
      · rw [update_of_ne hx]

/-- Other threads do not make the space of a queue smaller. -/
theorem FromOutside.room_le {q q' : SpmcStealQueue V} (h : FromOutside q q')
    (hq : stolen q + live q ≤ q.capacity.toNat) (hq' : stolen q' + live q' ≤ q'.capacity.toNat) :
    stolen q' + live q' ≤ stolen q + live q := by
  rcases h.steal with hsteal | halign
  · -- A claim moves `real_tail` between `steal` and `head`, and both stay.
    rw [← dist_steal_head hq, ← dist_steal_head hq', hsteal, h.head]
  · have hstolen : stolen q' = 0 := by
      rw [stolen_eq_zero, halign, stealOf_alignTail, realOf_alignTail]
    have hlive : live q' = live q := by
      unfold live
      rw [halign, realOf_alignTail, h.head]
    omega

end Kyron.Proofs.Containers
