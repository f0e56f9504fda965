import Kyron.Containers.SpmcSystem

/-!
# `Kyron.Containers.SpmcOverflow`: what a refused push has seen

The system of stealing queues with a note for each owner: how many items the `MpmcQueue` had
room for when `push_to_mpmc` asked. `push_to_mpmc` asks once, right after it has locked the
`MpmcQueue`. The note is a number without a bound; the source keeps it as a `u32`.
-/

set_option autoImplicit false

namespace Kyron.Containers

variable {Q V : Type}

/-- The next step of the owner ends its push with `Err`: `push_to_mpmc` has moved nothing, or
the second `push_local_queue` finds no space. -/
def SpmcSystem.refuses (s : SpmcSystem Q V) (t : Q) : Bool :=
  match s.threads t with
  | .overflowUnlock _ successful => successful = 0
  | .pushLoadTail _ true head => !(s.queues t).hasSpace head (s.queues t).tail
  | _ => false

/-- The system with what each owner's push has seen of the `MpmcQueue`. -/
structure OverflowLog (Q V : Type) where
  system : SpmcSystem Q V
  freeSeen : Q → Option Nat

namespace OverflowLog

variable [DecidableEq Q]

/-- Nobody has pushed yet. -/
def start (s : SpmcSystem Q V) : OverflowLog Q V := ⟨s, fun _ => none⟩

/-- The notes after an action. A new push starts without one. -/
def note (s : OverflowLog Q V) : SpmcAction Q V → Q → Option Nat
  | .push t _ => Function.update s.freeSeen t none
  | .advance t =>
      match s.system.threads t with
      | .overflowLock _ _ =>
          Function.update s.freeSeen t
            (some (s.system.mpmc.capacity - s.system.mpmc.items.length))
      | _ => s.freeSeen
  | _ => s.freeSeen

def step (s : OverflowLog Q V) (a : SpmcAction Q V) : Option (OverflowLog Q V) :=
  (s.system.step a).map fun system => ⟨system, s.note a⟩

end OverflowLog

end Kyron.Containers
