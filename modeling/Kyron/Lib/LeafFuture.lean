import Kyron.Lib.Transition

/-!
# `Kyron.Lib.LeafFuture`: futures that wait for an event

A leaf future stores a waker somewhere when a poll returns `Pending`, and the event that it waits
for invokes the wakers that it finds. `LeafFuture` is the part of such a future that matters to
who polls it: the polls that return `Pending`, the event, and what else may happen.

`Wait` is a run with its history. `WakesLast` is the contract of a future: the event invokes the
waker of the last poll and no other one. A condition on the state and on the event weakens it.

* `reaches_wait`: the invariant rule for these runs.
* `first_cons`: the waker of the first poll stays the first one.
* `not_wakesLast`: a run that breaks the contract.
-/

set_option autoImplicit false

namespace Kyron.Lib

/-- A future with the states `S`, the wakers `W`, the events `V` and the other actions `A`. -/
structure LeafFuture (S A V W : Type*) where
  /-- A poll that returns `Pending`. -/
  pollPending : S → W → Option S
  other : S → A → Option S
  /-- The event, with the wakers that it invokes for the future. -/
  event : S → V → Option (S × List W)

/-- A future that is waited for. -/
structure Wait (S W : Type*) where
  state : S
  /-- The wakers of the polls that returned `Pending`, the last one first. -/
  wakers : List W
  /-- The event has happened since the last poll. -/
  served : Bool

inductive WaitAction (A V W : Type*)
  | poll (w : W)
  | other (a : A)
  | event (v : V)

namespace Wait

variable {S W : Type*}

def start (s₀ : S) : Wait S W := ⟨s₀, [], false⟩

/-- The waker of the first poll. -/
def first (s : Wait S W) : Option W := s.wakers.getLast?

theorem first_cons {s : Wait S W} {w : W} (h : s.first = some w) (s' : S) (w' : W)
    (served : Bool) : first ⟨s', w' :: s.wakers, served⟩ = some w := by
  unfold first at h ⊢
  rw [List.getLast?_cons, h]
  rfl

end Wait

namespace LeafFuture

variable {S A V W : Type*} {f : LeafFuture S A V W}

def step (f : LeafFuture S A V W) (s : Wait S W) : WaitAction A V W → Option (Wait S W)
  | .poll w => (f.pollPending s.state w).map fun s' => ⟨s', w :: s.wakers, false⟩
  | .other a => (f.other s.state a).map fun s' => { s with state := s' }
  | .event v => (f.event s.state v).map fun r => { s with state := r.1, served := true }

/-- What holds at the start and is kept by polls, events and other actions holds in every run. -/
theorem reaches_wait {s₀ : S} {s : Wait S W} {I : Wait S W → Prop}
    (hrun : Reaches f.step anyStep (.start s₀) s) (hstart : I (.start s₀))
    (hpoll : ∀ s w s', I s → f.pollPending s.state w = some s' → I ⟨s', w :: s.wakers, false⟩)
    (hother : ∀ s a s', I s → f.other s.state a = some s' → I { s with state := s' })
    (hevent : ∀ s v s' ws, I s → f.event s.state v = some (s', ws) →
      I { s with state := s', served := true }) : I s := by
  refine hrun.invariant hstart fun s a s' hI _ hstep => ?_
  cases a with
  | poll w =>
      obtain ⟨t, hpending, rfl⟩ := Option.map_eq_some_iff.mp hstep
      exact hpoll s w t hI hpending
  | other a =>
      obtain ⟨t, hmove, rfl⟩ := Option.map_eq_some_iff.mp hstep
      exact hother s a t hI hmove
  | event v =>
      obtain ⟨⟨t, ws⟩, hcome, rfl⟩ := Option.map_eq_some_iff.mp hstep
      exact hevent s v t ws hI hcome

/-- When the last poll has returned `Pending` with the waker `w` and the event comes after it, then
the event invokes `w`. -/
def WakesLast (f : LeafFuture S A V W) (s₀ : S) (cond : Wait S W → V → Prop) : Prop :=
  ∀ s w v s' ws, Reaches f.step anyStep (.start s₀) s → s.wakers.head? = some w →
    s.served = false → cond s v → f.event s.state v = some (s', ws) → ws = [w]

/-- A run, and the event after it: the waker of the last poll, whether the event has happened
before, and the wakers that it invokes. -/
def trial (f : LeafFuture S A V W) (s₀ : S) (actions : List (WaitAction A V W)) (v : V) :
    Option (Option W × Bool × List W) :=
  (runActions f.step anyStep (.start s₀) actions).bind fun s =>
    (f.event s.state v).map fun r => (s.wakers.head?, s.served, r.2)

theorem WakesLast.trial {s₀ : S} {cond : Wait S W → V → Prop} (h : f.WakesLast s₀ cond)
    {actions : List (WaitAction A V W)} {v : V} {w : W} {ws : List W}
    (htrial : f.trial s₀ actions v = some (some w, false, ws))
    (hcond : ∀ s ∈ runActions f.step anyStep (.start s₀) actions, cond s v) : ws = [w] := by
  obtain ⟨s, hrun, hafter⟩ := Option.bind_eq_some_iff.mp htrial
  obtain ⟨⟨s', ws'⟩, hevent, hr⟩ := Option.map_eq_some_iff.mp hafter
  obtain ⟨hlast, hr⟩ := Prod.mk.inj hr
  obtain ⟨hserved, hws⟩ := Prod.mk.inj hr
  rw [← hws]
  exact h s w v s' ws' (reaches_of_runActions actions hrun) hlast hserved (hcond s hrun) hevent

/-- One run in which the event does not invoke the last waker. -/
theorem not_wakesLast {s₀ : S} {actions : List (WaitAction A V W)} {v : V} {w : W} {ws : List W}
    (h : f.trial s₀ actions v = some (some w, false, ws)) (hne : ws ≠ [w]) :
    ¬ f.WakesLast s₀ fun _ _ => True :=
  fun hlast => hne (hlast.trial h fun _ _ => trivial)

end LeafFuture

end Kyron.Lib
