import Mathlib.Data.List.Basic
import Mathlib.Logic.Function.Iterate

/-!
# `Kyron.Lib.Ring`: circular doubly linked lists

The links of a doubly linked structure are two maps `next` and `prev` from cells to optional
cells. `Linked next prev l` says that the cells of `l` are linked in order, and
`Ring next prev l` that they are linked in order and around.

* `ring_rotate`: a ring may start at any of its cells.
* `Ring.insert`: linking a new cell between the last and the first one.
* `Ring.erase_head`: unlinking the first cell by joining its neighbours.
* `Ring.next_mem`, `Ring.prev_mem`: following `next` or `prev` never leaves a ring, and each leads
  back along the other.
* `Ring.iterate_eq`: as many steps as a ring has cells lead back to the first one.
* `walk_eq`: following `next` from the first cell of a ring, for as many steps as it has
  cells, visits the cells in order.
-/

set_option autoImplicit false

namespace Kyron.Lib

variable {P : Type*}

/-- The cells of the list are linked in order. -/
def Linked (next prev : P → Option P) : List P → Prop
  | x :: y :: l => (next x = some y ∧ prev y = some x) ∧ Linked next prev (y :: l)
  | [_] => True
  | [] => True

/-- The cells of the list are linked in order, and the last one to the first one. -/
def Ring (next prev : P → Option P) : List P → Prop
  | [] => True
  | x :: l => Linked next prev (x :: l ++ [x])

section Linked

variable {next prev next' prev' : P → Option P}

/-- Two linked runs that share a cell make one. -/
theorem linked_append (l l' : List P) (x : P) :
    Linked next prev (l ++ x :: l') ↔ Linked next prev (l ++ [x]) ∧ Linked next prev (x :: l') := by
  induction l with
  | nil => simp [Linked]
  | cons y l ih =>
      cases l with
      | nil => simp [Linked]
      | cons z l =>
          simp only [List.cons_append, Linked] at ih ⊢
          rw [ih, ← and_assoc]

variable {l : List P}

/-- A linked run stays linked when no `next` changes before its last cell and no `prev` after
its first one. -/
theorem Linked.congr (h : Linked next prev l) (hnext : ∀ x ∈ l.dropLast, next' x = next x)
    (hprev : ∀ x ∈ l.tail, prev' x = prev x) : Linked next' prev' l := by
  induction l with
  | nil => trivial
  | cons x l ih =>
      cases l with
      | nil => trivial
      | cons y l =>
          obtain ⟨⟨hx, hy⟩, hl⟩ := h
          refine ⟨⟨?_, ?_⟩, ih hl (fun z hz => ?_) fun z hz => ?_⟩
          · rw [hnext x (by simp), hx]
          · rw [hprev y (by simp), hy]
          · exact hnext z (by rw [List.dropLast_cons_of_ne_nil (by simp)]; simp [hz])
          · exact hprev z (List.mem_of_mem_tail hz)

/-- A linked run of distinct cells stays linked when only the `next` of its last cell and the
`prev` of its first one change. -/
theorem Linked.congr_ends {x z : P} (h : Linked next prev (l ++ [z]))
    (hx : (l ++ [z]).head? = some x) (hnodup : (l ++ [z]).Nodup)
    (hnext : ∀ q ∈ l ++ [z], q ≠ z → next' q = next q)
    (hprev : ∀ q ∈ l ++ [z], q ≠ x → prev' q = prev q) : Linked next' prev' (l ++ [z]) := by
  refine h.congr (fun q hq => ?_) fun q hq => ?_
  · -- The last cell is not among those before it.
    rw [List.dropLast_concat] at hq
    refine hnext q (List.mem_append_left _ hq) fun heq => ?_
    exact (List.nodup_append.mp hnodup).2.2 q hq z (by simp) heq
  · refine hprev q (List.mem_of_mem_tail hq) fun heq => ?_
    cases hcons : l ++ [z] with
    | nil => rw [hcons] at hq; cases hq
    | cons y m =>
        rw [hcons] at hq hx hnodup
        cases hx
        exact (List.nodup_cons.mp hnodup).1 (heq ▸ hq)

/-- A linked run that leads back to its first cell is a ring. -/
theorem Linked.ring {x : P} (h : Linked next prev (l ++ [x])) (hx : l.head? = some x) :
    Ring next prev l := by
  cases l with
  | nil => trivial
  | cons y l =>
      cases hx
      exact h

/-- The first cell of a linked run points to the rest of it, which is linked too. -/
theorem Linked.tail {x y : P} (h : Linked next prev (x :: (l ++ [y]))) :
    next x = (l ++ [y]).head? ∧ Linked next prev (l ++ [y]) := by
  cases l with
  | nil => exact ⟨h.1.1, trivial⟩
  | cons z l => exact ⟨h.1.1, h.2⟩

/-- Every cell of a linked run but the last has its successor in the run. -/
theorem Linked.next_mem {x y : P} (h : Linked next prev (l ++ [y])) (hx : x ∈ l) :
    ∃ z ∈ l.tail ++ [y], next x = some z ∧ prev z = some x := by
  induction l with
  | nil => cases hx
  | cons a l ih =>
      cases l with
      | nil =>
          cases List.mem_singleton.mp hx
          exact ⟨y, by simp, h.1⟩
      | cons b l =>
          rcases List.mem_cons.mp hx with rfl | hx
          · exact ⟨b, by simp, h.1⟩
          · obtain ⟨z, hz, hlinks⟩ := ih h.2 hx
            exact ⟨z, by simpa using Or.inr hz, hlinks⟩

end Linked

section Ring

variable {next prev next' prev' : P → Option P}

/-- A ring may start at its second cell. -/
theorem ring_rotate (x : P) (l : List P) : Ring next prev (l ++ [x]) ↔ Ring next prev (x :: l) := by
  cases l with
  | nil => exact Iff.rfl
  | cons y l =>
      show Linked next prev (y :: (l ++ [x]) ++ [y]) ↔ Linked next prev (x :: y :: l ++ [x])
      -- Both rings are the runs from `y` to `x` and from `x` to `y`.
      rw [show y :: (l ++ [x]) ++ [y] = (y :: l) ++ x :: [y] by simp, linked_append (y :: l),
        show x :: y :: l ++ [x] = [x] ++ y :: (l ++ [x]) by simp, linked_append [x]]
      exact and_comm

/-- A ring may start at any of its cells. -/
theorem ring_append_comm (l l' : List P) : Ring next prev (l ++ l') ↔ Ring next prev (l' ++ l) := by
  induction l generalizing l' with
  | nil => simp
  | cons x l ih =>
      rw [List.cons_append, ← ring_rotate, List.append_assoc, ih, List.append_assoc]
      rfl

variable {l : List P} {x z : P}

/-- Following `next` never leaves a ring, and `prev` leads back. -/
theorem Ring.next_mem (h : Ring next prev l) (hx : x ∈ l) :
    ∃ y ∈ l, next x = some y ∧ prev y = some x := by
  cases l with
  | nil => cases hx
  | cons a l =>
      obtain ⟨y, hy, hlinks⟩ := Linked.next_mem h hx
      refine ⟨y, ?_, hlinks⟩
      rcases List.mem_append.mp hy with hy | hy
      · exact List.mem_cons_of_mem a hy
      · rw [List.mem_singleton.mp hy]
        exact List.mem_cons_self

/-- The predecessor of the first cell is the last one. -/
theorem Ring.prev_head (h : Ring next prev (l ++ [z])) (hx : (l ++ [z]).head? = some x) :
    prev x = some z ∧ next z = some x := by
  cases l with
  | nil =>
      cases hx
      exact ⟨h.1.2, h.1.1⟩
  | cons y l =>
      cases hx
      have hlast := (linked_append (x :: l) [x] z).mp (by simpa [Ring] using h)
      exact ⟨hlast.2.1.2, hlast.2.1.1⟩

/-- Following `prev` never leaves a ring, and `next` leads back. -/
theorem Ring.prev_mem (h : Ring next prev l) (hx : x ∈ l) :
    ∃ y ∈ l, prev x = some y ∧ next y = some x := by
  obtain ⟨pre, post, rfl⟩ := List.append_of_mem hx
  -- Turned so that it starts at `x`, the ring has the predecessor of `x` at its end.
  have hring : Ring next prev (x :: (post ++ pre)) := (ring_append_comm pre (x :: post)).mp h
  obtain ⟨cells, z, hcells⟩ : ∃ cells z, x :: (post ++ pre) = cells ++ [z] :=
    ⟨_, _, (List.dropLast_append_getLast (List.cons_ne_nil x _)).symm⟩
  have hz : z ∈ x :: (post ++ pre) := by
    rw [hcells]
    exact List.mem_append_right _ List.mem_cons_self
  rw [hcells] at hring
  refine ⟨z, ?_, hring.prev_head (by rw [← hcells]; rfl)⟩
  simp only [List.mem_append, List.mem_cons] at hz ⊢
  tauto

/-- The successor of the first cell of a ring of two or more. -/
theorem Ring.next_head {y : P} (h : Ring next prev (x :: y :: l)) :
    next x = some y := h.1.1

/-- A ring stays one when the links of its cells stay. -/
theorem Ring.congr (h : Ring next prev l) (hnext : ∀ x ∈ l, next' x = next x)
    (hprev : ∀ x ∈ l, prev' x = prev x) : Ring next' prev' l := by
  cases l with
  | nil => trivial
  | cons a l =>
      refine Linked.congr h (fun x hx => hnext x ?_) fun x hx => hprev x ?_
      · rwa [List.dropLast_concat] at hx
      · rcases List.mem_append.mp hx with hx | hx
        · exact List.mem_cons_of_mem a hx
        · rw [List.mem_singleton.mp hx]
          exact List.mem_cons_self

/-- A new cell `p` linked between the last cell `z` and the first cell `x`. -/
theorem Ring.insert {p : P} (h : Ring next prev (l ++ [z])) (hx : (l ++ [z]).head? = some x)
    (hnodup : (l ++ [z]).Nodup) (hp : p ∉ l ++ [z]) (hzp : next' z = some p)
    (hpz : prev' p = some z) (hpx : next' p = some x) (hxp : prev' x = some p)
    (hnext : ∀ q, q ≠ z → q ≠ p → next' q = next q)
    (hprev : ∀ q, q ≠ x → q ≠ p → prev' q = prev q) :
    Ring next' prev' (l ++ [z, p]) := by
  -- The ring is cut between its last and its first cell, and closed again around the new one.
  have hold : Linked next prev (l ++ [z]) := by
    cases l with
    | nil => trivial
    | cons y l => exact ((linked_append (y :: l) [y] z).mp (by simpa [Ring] using h)).1
  have hlinked : Linked next' prev' (l ++ [z]) :=
    hold.congr_ends hx hnodup (fun q hq hqz => hnext q hqz fun heq => hp (heq ▸ hq))
      fun q hq hqx => hprev q hqx fun heq => hp (heq ▸ hq)
  refine Linked.ring (x := x) ?_ (by cases l <;> simpa using hx)
  rw [List.append_assoc, show [z, p] ++ [x] = z :: [p, x] from rfl, linked_append]
  exact ⟨hlinked, ⟨hzp, hpz⟩, ⟨hpx, hxp⟩, trivial⟩

/-- The first cell `x` unlinked, and its neighbours `z` and `y` joined. -/
theorem Ring.erase_head {y : P} (h : Ring next prev (x :: (l ++ [z])))
    (hy : (l ++ [z]).head? = some y) (hnodup : (x :: (l ++ [z])).Nodup) (hzy : next' z = some y)
    (hyz : prev' y = some z) (hnext : ∀ q, q ≠ z → q ≠ x → next' q = next q)
    (hprev : ∀ q, q ≠ y → q ≠ x → prev' q = prev q) : Ring next' prev' (l ++ [z]) := by
  obtain ⟨hx, hrest⟩ := List.nodup_cons.mp hnodup
  -- Without its first cell the ring is a run, which the two new links close.
  have hold : Linked next prev (l ++ [z]) := by
    have hcut := (linked_append (x :: l) [x] z).mp (by simpa [Ring] using h)
    cases l with
    | nil => trivial
    | cons w l => exact hcut.1.2
  have hlinked : Linked next' prev' (l ++ [z]) :=
    hold.congr_ends hy hrest (fun q hq hqz => hnext q hqz fun heq => hx (heq ▸ hq))
      fun q hq hqy => hprev q hqy fun heq => hx (heq ▸ hq)
  refine Linked.ring (x := y) ?_ hy
  rw [List.append_assoc, show [z] ++ [y] = z :: [y] from rfl, linked_append]
  exact ⟨hlinked, ⟨hzy, hyz⟩, trivial⟩

end Ring

/-- Follows `next` for a number of steps and lists the cells visited. -/
def walk (next : P → Option P) : Nat → Option P → List P
  | 0, _ => []
  | _ + 1, none => []
  | n + 1, some x => x :: walk next n (next x)

variable {l : List P}

/-- A walk along a linked run visits its cells. -/
theorem Linked.walk_eq {next prev : P → Option P} {y : P} (h : Linked next prev (l ++ [y])) :
    walk next l.length (l ++ [y]).head? = l := by
  induction l with
  | nil => rfl
  | cons x l ih =>
      obtain ⟨hnext, hrest⟩ := Linked.tail h
      show x :: walk next l.length (next x) = x :: l
      rw [hnext, ih hrest]

/-- As many steps as there are cells before the last one lead to that one. -/
theorem Linked.iterate_eq {next prev : P → Option P} {y : P} (h : Linked next prev (l ++ [y])) :
    (fun p : Option P => p.bind next)^[l.length] (l ++ [y]).head? = some y := by
  induction l with
  | nil => rfl
  | cons x l ih =>
      obtain ⟨hnext, hrest⟩ := Linked.tail h
      show (fun p : Option P => p.bind next)^[l.length] (next x) = some y
      rw [hnext, ih hrest]

/-- As many steps as a ring has cells lead back to the first one. -/
theorem Ring.iterate_eq {next prev : P → Option P} (h : Ring next prev l) :
    (fun p : Option P => p.bind next)^[l.length] l.head? = l.head? := by
  cases l with
  | nil => rfl
  | cons x l => exact Linked.iterate_eq h

/-- A walk around a ring visits its cells. -/
theorem Ring.walk_eq {next prev : P → Option P} (h : Ring next prev l) :
    walk next l.length l.head? = l := by
  cases l with
  | nil => rfl
  | cons x l => exact Linked.walk_eq h

end Kyron.Lib
