import Mathlib.Data.Nat.ModEq

/-!
# `Kyron.Lib.RingBuffer`: lists in a ring of slots

`RingHolds c data start l` says that the values of `l` are in the slots of a ring of `c` slots, from
the slot of the counter `start` on and around. A counter is a natural number, of which only the
remainder by `c` matters, so a machine word that wraps around at a multiple of `c` will do.

* `RingHolds.concat`: writing the next slot appends a value, if there is room.
* `RingHolds.drop`: leaving out the first values moves the start.
* `RingHolds.frame`: what is written elsewhere does not matter.
* `RingHolds.filterMap_range`: the list is what the slots say.
-/

set_option autoImplicit false

namespace Kyron.Lib

variable {V : Type*} {c start start' : Nat} {data data' : Nat → Option V} {l : List V}

/-- Two counters less than a ring apart have different slots. -/
theorem slot_ne (start : Nat) {i k : Nat} (hlt : i < k) (hring : k < i + c) :
    (start + i) % c ≠ (start + k) % c := by
  intro heq
  have hmod : Nat.ModEq c (start + i) (start + k) := heq
  have hdvd : c ∣ k - i := (Nat.modEq_iff_dvd' hlt.le).mp (Nat.ModEq.add_left_cancel' start hmod)
  have hle := Nat.le_of_dvd (by omega) hdvd
  omega

/-- The list is in the slots from `start` on. -/
def RingHolds (c : Nat) (data : Nat → Option V) (start : Nat) (l : List V) : Prop :=
  ∀ i v, l[i]? = some v → data ((start + i) % c) = some v

theorem ringHolds_nil : RingHolds c data start [] := by
  intro i v h
  rw [List.getElem?_nil] at h
  cases h

/-- The first value. -/
theorem RingHolds.head {v : V} (h : RingHolds c data start (v :: l)) :
    data (start % c) = some v := h 0 v rfl

theorem RingHolds.drop (h : RingHolds c data start l) (n : Nat) :
    RingHolds c data (start + n) (l.drop n) := by
  intro i v hi
  rw [List.getElem?_drop] at hi
  rw [Nat.add_assoc]
  exact h (n + i) v hi

theorem RingHolds.tail {v : V} (h : RingHolds c data start (v :: l)) :
    RingHolds c data (start + 1) l := h.drop 1

/-- Only the slots of the list matter. -/
theorem RingHolds.frame (h : RingHolds c data start l)
    (hsame : ∀ i < l.length, data' ((start + i) % c) = data ((start + i) % c)) :
    RingHolds c data' start l := by
  intro i v hi
  rw [hsame i (List.getElem?_eq_some_iff.mp hi).1]
  exact h i v hi

/-- Only the remainder of the start matters. -/
theorem RingHolds.congr_start (h : RingHolds c data start l) (heq : start % c = start' % c) :
    RingHolds c data start' l := by
  intro i v hi
  rw [Nat.add_mod, ← heq, ← Nat.add_mod]
  exact h i v hi

theorem RingHolds.mono (h : RingHolds c data start l)
    (hsub : ∀ k v, data k = some v → data' k = some v) : RingHolds c data' start l :=
  fun i v hi => hsub _ v (h i v hi)

/-- The list read off the slots. -/
theorem RingHolds.filterMap_range (h : RingHolds c data start l) :
    (List.range l.length).filterMap (fun i => data ((start + i) % c)) = l := by
  induction l generalizing start with
  | nil => rfl
  | cons v l ih =>
      have hshift : (fun i => data ((start + i) % c)) ∘ Nat.succ =
          fun i => data ((start + 1 + i) % c) := by
        funext i
        rw [Function.comp_apply, Nat.succ_eq_add_one, Nat.add_assoc, Nat.add_comm 1 i]
      rw [List.length_cons, List.range_succ_eq_map,
        List.filterMap_cons_some (f := fun i => data ((start + i) % c)) h.head,
        List.filterMap_map, hshift, ih h.tail]

/-- The next slot is written. -/
theorem RingHolds.concat (h : RingHolds c data start l) (hlen : l.length < c) {v : V}
    (hnew : data' ((start + l.length) % c) = some v)
    (hsame : ∀ k < c, k ≠ (start + l.length) % c → data' k = data k) :
    RingHolds c data' start (l ++ [v]) := by
  intro i w hi
  rw [List.getElem?_append] at hi
  split at hi
  · rename_i hlt
    rw [hsame _ (Nat.mod_lt _ (by omega)) (slot_ne start hlt (by omega))]
    exact h i w hi
  · obtain ⟨hlt, heq⟩ := List.getElem?_eq_some_iff.mp hi
    rw [List.length_singleton] at hlt
    have hi' : i = l.length := by omega
    rw [List.getElem_singleton] at heq
    rw [hi', hnew, heq]

end Kyron.Lib
