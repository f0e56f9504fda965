import Kyron.Scheduler.AsyncWorkers

/-!
# `Kyron.Scheduler.SearchLog`: who has raised and lowered the counter

The async workers with two notes for each of them: how often it has entered
`num_of_searching_workers`, by the `fetch_add` of `try_transition_worker_to_searching`, and how
often it has left it, by the `fetch_sub` of `transition_worker_to_executing` or of
`transition_to_parked`.
-/

set_option autoImplicit false

namespace Kyron.Scheduler

variable {n : Nat} {K O : Type}

namespace AsyncWorkers

/-- The worker that raises the counter with this action. -/
def entersSearch (s : AsyncWorkers n K O) : AsyncAction n K O → Option (Fin n)
  | .search w _ =>
      match (s.loop w).pc with
      | .searchAdd => if (s.loop w).isSearching then none else some w
      | _ => none
  | _ => none

/-- The worker that lowers the counter with this action. Its local state says that it is
searching. -/
def leavesSearch (s : AsyncWorkers n K O) : AsyncAction n K O → Option (Fin n)
  | .advance w =>
      match (s.loop w).pc with
      | .execute _ | .toParked => if (s.loop w).isSearching then some w else none
      | _ => none
  | _ => none

end AsyncWorkers

/-- The workers, and how often each of them has entered and left the counter. -/
structure SearchLog (n : Nat) (K O : Type) where
  workers : AsyncWorkers n K O
  entered : Fin n → Nat
  left : Fin n → Nat

namespace SearchLog

def start (s : AsyncWorkers n K O) : SearchLog n K O := ⟨s, fun _ => 0, fun _ => 0⟩

/-- One more for the worker, if there is one. -/
def count (notes : Fin n → Nat) : Option (Fin n) → Fin n → Nat
  | some w => Function.update notes w (notes w + 1)
  | none => notes

variable [DecidableEq O]

def step (l : SearchLog n K O) (a : AsyncAction n K O) : Option (SearchLog n K O) :=
  (l.workers.step a).map fun workers =>
    ⟨workers, count l.entered (l.workers.entersSearch a), count l.left (l.workers.leavesSearch a)⟩

end SearchLog

end Kyron.Scheduler
