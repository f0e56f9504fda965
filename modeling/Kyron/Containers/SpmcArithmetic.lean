import Kyron.Containers.SpmcSystem

/-!
# `Kyron.Containers.SpmcArithmetic`: the sums that do not wrap

Most of the arithmetic on the counters of `spmc_queue.rs` is `wrapping_add` and `wrapping_sub`.
A few places use plain `+` and `-` on `u32`. In a build with overflow checks such an operation
panics when its result is not a `u32`. `plainOps` lists the ones that the next step of a thread
makes, with their operands. Sums of `usize` are not among them.
-/

set_option autoImplicit false

namespace Kyron.Containers

/-- A plain `+` or `-` of two `u32`s. -/
inductive PlainOp
  | add (a b : Nat)
  | sub (a b : Nat)
  deriving DecidableEq, Repr

/-- The result is a `u32`. -/
def PlainOp.Fits : PlainOp → Prop
  | .add a b => a + b < UInt32.size
  | .sub a b => b ≤ a

instance : (op : PlainOp) → Decidable op.Fits
  | .add a b => inferInstanceAs (Decidable (a + b < UInt32.size))
  | .sub a b => inferInstanceAs (Decidable (b ≤ a))

variable {Q V : Type}

/-- The plain operations on `u32`s in the next step of a thread. -/
def SpmcSystem.plainOps (s : SpmcSystem Q V) (t : Q) : List PlainOp :=
  let q := s.queues t
  match s.threads t with
  -- `successful_items += 1` in `push_to_mpmc`
  | .overflowMove _ _ (_ + 1) successful => [.add successful 1]
  -- `dst.data.len() as u32 - dst_avail_size` in `steal_into`
  | .stealLoadDstTail _ _ dstHead =>
      let dstAvailSize := dstHead - (unpackTail q.tail).1
      if dstAvailSize ≥ q.capacity then [] else [.sub q.capacity.toNat dstAvailSize.toNat]
  -- `start_idx + i` and `dst_head + i` in `steal_internal`
  | .stealRead _ dstHead start _ i => [.add start.toNat i, .add dstHead.toNat i]
  -- `self.capacity - Self::count_internal(head, tail)` in `fetch_from`
  | .fetchLen head tail => [.sub q.capacity.toNat (countInternal head tail).toNat]
  -- `head + num_items as u32` in `fetch_from`, when there is an item to copy
  | .fetchMove head possible items =>
      if items < possible ∧ s.mpmc.items ≠ [] then [.add head.toNat items] else []
  | _ => []

end Kyron.Containers
