import Mathlib.Data.List.Nodup
import Kyron.Containers.IntrusiveList

/-!
# `Kyron.Proofs.Containers.IntrusiveList`: the list is a ring of its items

`Represents l m xs` says that the list `l` in memory `m` holds the items `xs` in order: they
are distinct, linked as a ring, the head is the first and the length is right. Every operation
keeps it, and changes no link outside the items it works on, so any number of lists can share
the memory.

The ring has no end. `remove` on a list of two or more items follows `next` until it meets the
item or null, and null is not in the ring: the search for an item that is not in the list never
ends (`Represents.remove_diverges`).
-/

set_option autoImplicit false

namespace Kyron.Proofs.Containers

open Kyron.Lib
open Kyron.Containers
open Function

variable {P : Type} [DecidableEq P] {m m' : Memory P} {l : IntrusiveList P}

/-! ### Links in memory -/

omit [DecidableEq P] in
theorem deref_some (p : P) : deref (some p) = .ok p := rfl

/-- A computation that has answered goes on with its answer. -/
theorem ok_bind {ε α β : Type} (a : α) (f : α → Except ε β) : (Except.ok a >>= f) = f a := rfl

/-- The items are linked as a ring in the memory. -/
def RingIn (m : Memory P) (xs : List P) : Prop :=
  Ring (fun p => (m p).next) (fun p => (m p).prev) xs

@[simp] theorem setPrev_prev (p q : P) (v : Option P) :
    (m.setPrev p v q).prev = if q = p then v else (m q).prev := by
  unfold Memory.setPrev
  by_cases h : q = p <;> simp [h]

@[simp] theorem setPrev_next (p q : P) (v : Option P) :
    (m.setPrev p v q).next = (m q).next := by
  unfold Memory.setPrev
  by_cases h : q = p <;> simp [h]

@[simp] theorem setNext_prev (p q : P) (v : Option P) :
    (m.setNext p v q).prev = (m q).prev := by
  unfold Memory.setNext
  by_cases h : q = p <;> simp [h]

@[simp] theorem setNext_next (p q : P) (v : Option P) :
    (m.setNext p v q).next = if q = p then v else (m q).next := by
  unfold Memory.setNext
  by_cases h : q = p <;> simp [h]

variable {xs pre post : List P} {x item : P} {r : Except Fault (Bool × IntrusiveList P × Memory P)}

omit [DecidableEq P] in
theorem RingIn.congr (h : RingIn m xs) (hm : ∀ q ∈ xs, m' q = m q) : RingIn m' xs :=
  Ring.congr h (fun q hq => by rw [hm q hq]) fun q hq => by rw [hm q hq]

omit [DecidableEq P] in
/-- A list that is not empty has a last item. -/
theorem exists_concat (h : xs ≠ []) : ∃ ys z, xs = ys ++ [z] :=
  ⟨_, _, (List.dropLast_append_getLast h).symm⟩

omit [DecidableEq P] in
theorem ne_of_head? {q : P} (hx : xs.head? = some x) (hq : q ∉ xs) : q ≠ x := by
  rintro rfl
  exact hq (List.mem_of_mem_head? hx)

/-- Inserting a new link before the head of a ring puts it at the end. -/
theorem insertLinkBefore_spec {p : P} (h : RingIn m xs) (hx : xs.head? = some x) (hnodup : xs.Nodup)
    (hp : p ∉ xs) : ∃ m', m.insertLinkBefore p x = .ok m' ∧ RingIn m' (xs ++ [p]) ∧
      ∀ q, q ∉ xs ++ [p] → m' q = m q := by
  have hne : xs ≠ [] := by
    rintro rfl
    cases hx
  obtain ⟨ys, z, rfl⟩ := exists_concat hne
  obtain ⟨hprev, -⟩ := Ring.prev_head h hx
  have hzp : z ≠ p := fun heq => hp (by simp [heq])
  have hxp : x ≠ p := (ne_of_head? hx hp).symm
  refine ⟨_, by simp only [Memory.insertLinkBefore, hprev]; rfl, ?_, ?_⟩
  · rw [List.append_assoc]
    refine Ring.insert h hx hnodup hp ?_ ?_ ?_ ?_ (fun q hqz hqp => ?_) fun q hqx hqp => ?_
    · simp [hzp]
    · simp [Ne.symm hxp]
    · simp
    · simp
    · simp [hqz, hqp]
    · simp [hqx, hqp]
  · -- The links written are those of the new item and of its two neighbours.
    intro q hq
    have hqx : q ≠ x := ne_of_head? hx fun hmem => hq (List.mem_append_left _ hmem)
    simp only [List.append_assoc, List.mem_append, List.cons_append,
      List.nil_append, List.mem_cons, List.not_mem_nil, or_false, not_or] at hq
    exact Link.ext (by simp [hqx, hq.2.2]) (by simp [hq.2.1, hq.2.2])

/-- Unlinking the first item of a ring of two or more. -/
theorem removeLink_head {y : P} (h : RingIn m (x :: xs)) (hy : xs.head? = some y)
    (hnodup : (x :: xs).Nodup) :
    ∃ m', m.removeLink x = .ok m' ∧ RingIn m' xs ∧ m' x = ⟨none, none⟩ ∧
      ∀ q, q ∉ x :: xs → m' q = m q := by
  have hne : xs ≠ [] := by
    rintro rfl
    cases hy
  obtain ⟨ys, z, rfl⟩ := exists_concat hne
  have hnext : (m x).next = some y := by
    cases ys with
    | nil =>
        cases hy
        exact Ring.next_head h
    | cons w ys =>
        cases hy
        exact Ring.next_head h
  obtain ⟨hprev, -⟩ := Ring.prev_head (l := x :: ys) h rfl
  have hyx : y ≠ x := (ne_of_head? hy (List.nodup_cons.mp hnodup).1).symm
  have hzx : z ≠ x := fun heq => (List.nodup_cons.mp hnodup).1 (by simp [heq])
  refine ⟨_, by simp only [Memory.removeLink, hprev, hnext]; rfl, ?_, ?_, ?_⟩
  · refine Ring.erase_head h hy hnodup ?_ ?_ (fun q hqz hqx => ?_) fun q hqy hqx => ?_
    · simp [hzx]
    · simp [hyx]
    · simp [hqz, hqx]
    · simp [hqy, hqx]
  · exact Link.ext (by simp) (by simp)
  · intro q hq
    have hqy : q ≠ y := ne_of_head? hy fun hmem => hq (List.mem_cons_of_mem x hmem)
    simp only [List.mem_cons, List.mem_append, List.not_mem_nil, or_false, not_or] at hq
    exact Link.ext (by simp [hq.1, hqy]) (by simp [hq.1, hq.2.2])

/-- Unlinking the only item of a ring. -/
theorem removeLink_single (h : RingIn m [x]) :
    ∃ m', m.removeLink x = .ok m' ∧ m' x = ⟨none, none⟩ ∧ ∀ q, q ≠ x → m' q = m q := by
  obtain ⟨⟨hnext, hprev⟩, -⟩ := h
  refine ⟨_, by simp only [Memory.removeLink, hnext, hprev]; rfl, ?_, fun q hq => ?_⟩
  · exact Link.ext (by simp) (by simp)
  · exact Link.ext (by simp [hq]) (by simp [hq])

omit [DecidableEq P] in
/-- The only item of a ring is linked to itself. -/
theorem RingIn.ne_null (h : RingIn m [x]) : m x ≠ ⟨none, none⟩ := by
  intro hnull
  have hnext : (m x).next = some x := h.1.1
  rw [hnull] at hnext
  cases hnext

/-- Unlinking any item of a ring of two or more. -/
theorem removeLink_mem (h : RingIn m (pre ++ x :: post)) (hrest : pre ++ post ≠ [])
    (hnodup : (pre ++ x :: post).Nodup) :
    ∃ m', m.removeLink x = .ok m' ∧ RingIn m' (pre ++ post) ∧ m' x = ⟨none, none⟩ ∧
      ∀ q, q ∉ pre ++ x :: post → m' q = m q := by
  -- Turned so that it starts at the item, the ring loses its head.
  have hring : RingIn m (x :: (post ++ pre)) := (ring_append_comm pre (x :: post)).mp h
  have hperm : (pre ++ x :: post).Perm (x :: (post ++ pre)) := List.perm_append_comm
  obtain ⟨y, hy⟩ : ∃ y, (post ++ pre).head? = some y := by
    cases hcons : post ++ pre with
    | nil =>
        obtain ⟨rfl, rfl⟩ := List.append_eq_nil_iff.mp hcons
        exact absurd rfl hrest
    | cons y ys => exact ⟨y, rfl⟩
  obtain ⟨m', hm', hring', hnull, hframe⟩ := removeLink_head hring hy (hperm.nodup hnodup)
  exact ⟨m', hm', (ring_append_comm post pre).mp hring', hnull,
    fun q hq => hframe q fun hmem => hq (hperm.mem_iff.mpr hmem)⟩

/-! ### One list -/

/-- The list holds the items in order. -/
structure Represents (l : IntrusiveList P) (m : Memory P) (xs : List P) : Prop where
  nodup : xs.Nodup
  len : l.len = xs.length
  head : xs ≠ [] → l.head = xs.head?
  ring : RingIn m xs

omit [DecidableEq P] in
theorem represents_empty (m : Memory P) : Represents IntrusiveList.empty m [] :=
  ⟨List.nodup_nil, rfl, by simp, trivial⟩

omit [DecidableEq P] in
/-- A list is not affected by changes of the memory outside its items. -/
theorem Represents.congr (h : Represents l m xs) (hm : ∀ q ∈ xs, m' q = m q) : Represents l m' xs :=
  { h with ring := h.ring.congr hm }

omit [DecidableEq P] in
/-- Following `next` from the head finds the items. -/
theorem Represents.items_eq (h : Represents l m xs) : l.items m = xs := by
  unfold IntrusiveList.items
  rw [h.len]
  cases xs with
  | nil => rfl
  | cons x xs =>
      rw [h.head (by simp)]
      exact Ring.walk_eq h.ring

theorem Represents.pushBack (h : Represents l m xs) (hitem : item ∉ xs) :
    ∃ l' m', l.pushBack m item = .ok (l', m') ∧ Represents l' m' (xs ++ [item]) ∧
      ∀ q, q ∉ xs ++ [item] → m' q = m q := by
  unfold IntrusiveList.pushBack
  have hlen := h.len
  cases xs with
  | nil =>
      change l.len = 0 at hlen
      rw [if_pos hlen]
      refine ⟨_, _, rfl, ⟨by simp, by rw [hlen]; rfl, fun _ => rfl, ?_⟩, fun q hq => ?_⟩
      · exact ⟨⟨by simp, by simp⟩, trivial⟩
      · have hne : q ≠ item := by simpa using hq
        exact Link.ext (by simp [hne]) (by simp [hne])
  | cons x xs =>
      obtain ⟨m', hins, hring, hframe⟩ := insertLinkBefore_spec h.ring rfl h.nodup hitem
      rw [if_neg (by rw [hlen]; simp), h.head (by simp)]
      refine ⟨⟨some x, l.len + 1⟩, m', ?_, ⟨?_, ?_, fun _ => rfl, hring⟩, hframe⟩
      · simp only [List.head?_cons, deref_some, ok_bind, hins]
      · refine List.nodup_append.mpr ⟨h.nodup, by simp, fun a ha b hb heq => hitem ?_⟩
        rw [← List.mem_singleton.mp hb, ← heq]
        exact ha
      · simp [hlen]

theorem Represents.popFront (h : Represents l m xs) :
    ∃ l' m', l.popFront m = .ok (xs.head?, l', m') ∧ Represents l' m' xs.tail ∧
      (∀ x, xs.head? = some x → m' x = ⟨none, none⟩) ∧ ∀ q, q ∉ xs → m' q = m q := by
  unfold IntrusiveList.popFront
  have hlen := h.len
  cases xs with
  | nil =>
      rw [if_neg (by rw [hlen]; simp)]
      exact ⟨l, m, rfl, h, (fun _ hx => by cases hx), fun _ _ => rfl⟩
  | cons x xs =>
      rw [if_pos (by rw [hlen]; simp), h.head (by simp)]
      cases xs with
      | nil =>
          obtain ⟨m', hrem, hnull, hframe⟩ := removeLink_single h.ring
          have hnext : (m x).next = some x := h.ring.1.1
          refine ⟨⟨some x, l.len - 1⟩, m', ?_, ⟨by simp, by simp [hlen], by simp, trivial⟩,
            fun y hy => ?_, fun q hq => hframe q (by simpa using hq)⟩
          · simp only [List.head?_cons, deref_some, ok_bind, hnext, hrem]
          · cases hy
            exact hnull
      | cons y xs =>
          obtain ⟨m', hrem, hring, hnull, hframe⟩ := removeLink_head h.ring rfl h.nodup
          have hnext : (m x).next = some y := Ring.next_head h.ring
          refine ⟨⟨some y, l.len - 1⟩, m', ?_, ⟨(List.nodup_cons.mp h.nodup).2, by simp [hlen],
            fun _ => rfl, hring⟩, fun z hz => ?_, hframe⟩
          · simp only [List.head?_cons, deref_some, ok_bind, hnext, hrem]
          · cases hz
            exact hnull

/-- An item is unlinked from any place. The only one keeps its links. -/
theorem Represents.removeInternal (h : Represents l m (pre ++ x :: post)) :
    ∃ l' m', l.removeInternal m x = .ok (l', m') ∧ Represents l' m' (pre ++ post) ∧
      (m' x = ⟨none, none⟩ ↔ pre ++ post ≠ []) ∧ ∀ q, q ∉ pre ++ x :: post → m' q = m q := by
  unfold IntrusiveList.removeInternal
  have hlen := h.len
  have hhead := h.head (by simp)
  have hnodup : (pre ++ post).Nodup :=
    h.nodup.sublist (List.Sublist.append_left (List.sublist_cons_self x post) pre)
  cases pre with
  | nil =>
      rw [hhead, if_pos (by simp)]
      cases post with
      | nil =>
          -- The only item keeps its links: the source only forgets the head.
          rw [if_pos (by rw [hlen]; simp)]
          exact ⟨_, _, rfl, ⟨by simp, by simp [hlen], by simp, trivial⟩,
            by simp [h.ring.ne_null], fun _ _ => rfl⟩
      | cons y post =>
          obtain ⟨m', hrem, hring, hnull, hframe⟩ := removeLink_head h.ring rfl h.nodup
          have hnext : (m x).next = some y := Ring.next_head h.ring
          rw [if_neg (by rw [hlen]; simp), hnext]
          refine ⟨⟨some y, l.len - 1⟩, m', ?_, ⟨hnodup, by simp [hlen], fun _ => rfl, hring⟩,
            by simp [hnull], hframe⟩
          simp only [deref_some, ok_bind, hrem]
  | cons w pre =>
      obtain ⟨m', hrem, hring, hnull, hframe⟩ := removeLink_mem h.ring (by simp) h.nodup
      have hne : x ≠ w := by
        rintro rfl
        exact (List.nodup_cons.mp h.nodup).1 (by simp)
      rw [hhead, if_neg (by simpa using hne), hrem]
      refine ⟨_, _, rfl, ⟨hnodup, ?_, fun _ => rfl, hring⟩, by simp [hnull], hframe⟩
      simp [hlen]
      omega

/-- The items `xs` were in a list, and `ys` of them are left: the links of those that are not are
null, but for the last one if no item is left. -/
def UnlinkedButLast (m : Memory P) (xs ys : List P) : Prop :=
  ∀ x ∈ xs, x ∉ ys → (m x = ⟨none, none⟩ ↔ ¬ (ys = [] ∧ xs.getLast? = some x))

omit [DecidableEq P] in
theorem unlinkedButLast_refl (m : Memory P) (xs : List P) : UnlinkedButLast m xs xs :=
  fun _ hx hleft => absurd hx hleft

/-- What `remove_if` keeps of a sequence of items, with the last state of the predicate. -/
def sift {S : Type} (f : S → P → Bool × S) : S → List P → List P × S
  | st, [] => ([], st)
  | st, x :: xs =>
      let (remove, st') := f st x
      let (ys, st'') := sift f st' xs
      (if remove then ys else x :: ys, st'')

omit [DecidableEq P] in
/-- What stays is in its old order. -/
theorem sift_sublist {S : Type} (f : S → P → Bool × S) (st : S) (xs : List P) :
    (sift f st xs).1.Sublist xs := by
  induction xs generalizing st with
  | nil => exact List.Sublist.slnil
  | cons x xs ih =>
      unfold sift
      dsimp only
      split
      · exact (ih _).cons x
      · exact (ih _).cons_cons x

omit [DecidableEq P] in
/-- In a ring, the successor of an item that is not the last is the next item. -/
theorem RingIn.next_eq {y : P} (h : RingIn m (pre ++ x :: y :: post)) : (m x).next = some y :=
  Ring.next_head ((ring_append_comm pre (x :: y :: post)).mp h)

omit [DecidableEq P] in
theorem not_mem_of_nodup_middle (h : (pre ++ x :: post).Nodup) : x ∉ pre ++ post :=
  (List.nodup_cons.mp (List.perm_middle.nodup h)).1

omit [DecidableEq P] in
/-- One more item `x` has left, before the others: its link is null exactly when it was not the only
one. -/
theorem UnlinkedButLast.cons {kept rest left : List P}
    (h : UnlinkedButLast m (kept ++ rest) (kept ++ left)) (hnodup : (kept ++ x :: rest).Nodup)
    (hx : m x = ⟨none, none⟩ ↔ kept ++ rest ≠ []) (hsub : left.Sublist rest) :
    UnlinkedButLast m (kept ++ x :: rest) (kept ++ left) := by
  intro y hy hleft
  have hout := not_mem_of_nodup_middle hnodup
  by_cases heq : y = x
  · subst heq
    rw [hx]
    cases hrest : rest with
    | nil =>
        rw [hrest, List.sublist_nil] at hsub
        simp [hsub]
    | cons z zs =>
        rw [hrest] at hout
        -- The last item is one of those behind `y`.
        have hlast : (kept ++ y :: z :: zs).getLast? ≠ some y := by
          intro hget
          have hmem : y ∈ z :: zs := by
            rw [List.getLast?_append, List.getLast?_cons_cons] at hget
            refine List.mem_of_getLast? ?_
            cases hz : (z :: zs).getLast? with
            | none => simp at hz
            | some w =>
                rw [hz] at hget
                exact hget
          exact hout (List.mem_append_right _ hmem)
        exact iff_of_true (by simp) fun hempty => hlast hempty.2
  · have hmem : y ∈ kept ++ rest := by
      simp only [List.mem_append, List.mem_cons] at hy ⊢
      tauto
    rw [h y hmem hleft]
    cases hrest : rest with
    | nil =>
        rw [hrest, List.append_nil] at hmem
        exact absurd (List.mem_append_left _ hmem) hleft
    | cons z zs => simp [List.getLast?_append, List.getLast?_cons_cons]

/-- The loop of `remove_if` when the items `kept` have been looked at and kept, and the items
`rest` are still to come. -/
theorem removeIfLoop_spec {S : Type} (f : S → P → Bool × S) (rest kept : List P)
    (l : IntrusiveList P) (m : Memory P) (st : S) (curr : Option P)
    (h : Represents l m (kept ++ rest)) (hcurr : rest ≠ [] → curr = rest.head?) :
    ∃ l' m', IntrusiveList.removeIfLoop f rest.length curr l m st
        = .ok (l', m', (sift f st rest).2) ∧
      Represents l' m' (kept ++ (sift f st rest).1) ∧
      UnlinkedButLast m' (kept ++ rest) (kept ++ (sift f st rest).1) ∧
      ∀ q, q ∉ kept ++ rest → m' q = m q := by
  -- On the items still to come. The loop reads `next` before it unlinks, so the item it goes on
  -- with is in the list that is left.
  induction rest generalizing kept l m st curr with
  | nil => exact ⟨l, m, rfl, h, unlinkedButLast_refl m _, fun _ _ => rfl⟩
  | cons x rest ih =>
      rw [hcurr (by simp)]
      simp only [List.length_cons, IntrusiveList.removeIfLoop, List.head?_cons, deref_some, ok_bind]
      have hnext : rest ≠ [] → (m x).next = rest.head? := by
        intro hne
        cases rest with
        | nil => exact absurd rfl hne
        | cons y rest => exact h.ring.next_eq
      cases hf : f st x with
      | mk remove st' =>
          cases remove with
          | true =>
              obtain ⟨l₁, m₁, hrem, hrep, hnull, hframe₁⟩ := h.removeInternal
              obtain ⟨l', m', hloop, hrep', hleft, hframe⟩ :=
                ih kept l₁ m₁ st' (m x).next hrep hnext
              have hsift : (sift f st (x :: rest)).1 = (sift f st' rest).1 := by simp [sift, hf]
              rw [hsift]
              refine ⟨l', m', ?_, hrep', ?_, fun q hq => ?_⟩
              · simp only [if_true, hrem, ok_bind, sift, hf]
                exact hloop
              · refine hleft.cons h.nodup ?_ (sift_sublist f st' rest)
                rw [hframe x (not_mem_of_nodup_middle h.nodup)]
                exact hnull
              · have hkept : q ∉ kept ++ rest := by
                  simp only [List.mem_append, List.mem_cons] at hq ⊢
                  tauto
                rw [hframe q hkept, hframe₁ q hq]
          | false =>
              obtain ⟨l', m', hloop, hrep', hleft, hframe⟩ :=
                ih (kept ++ [x]) l m st' (m x).next (by simpa using h) hnext
              refine ⟨l', m', ?_, ?_, ?_, fun q hq => hframe q (by simpa using hq)⟩
              · simp only [Bool.false_eq_true, if_false, sift, hf]
                exact hloop
              · simpa [sift, hf] using hrep'
              · simpa [sift, hf] using hleft

/-- By induction on the items that are left, `remove_if` is `sift`. -/
theorem Represents.removeIf {S : Type} (h : Represents l m xs) (f : S → P → Bool × S) (st : S) :
    ∃ l' m', l.removeIf f m st = .ok (l', m', (sift f st xs).2) ∧
      Represents l' m' (sift f st xs).1 ∧ UnlinkedButLast m' xs (sift f st xs).1 ∧
      ∀ q, q ∉ xs → m' q = m q := by
  unfold IntrusiveList.removeIf
  cases xs with
  | nil =>
      rw [if_pos (by rw [h.len]; rfl)]
      exact ⟨l, m, rfl, h, unlinkedButLast_refl m [], fun _ _ => rfl⟩
  | cons x xs =>
      rw [if_neg (by rw [h.len]; simp), h.len]
      exact removeIfLoop_spec f (x :: xs) [] l m st l.head h h.head

/-! ### Removing one item -/

/-- The search of `remove` stays in the ring. It ends only at the item. -/
theorem removeLoop_spec (h : RingIn m xs) (fuel : Nat) {curr : P} (hcurr : curr ∈ xs)
    (hr : l.removeLoop m item fuel (some curr) = some r) :
    item ∈ xs ∧ r = (l.removeInternal m item).map fun (l, m) => (true, l, m) := by
  induction fuel generalizing curr with
  | zero => cases hr
  | succ fuel ih =>
      unfold IntrusiveList.removeLoop at hr
      by_cases heq : curr = item
      · subst heq
        rw [if_pos rfl] at hr
        exact ⟨hcurr, (Option.some.inj hr).symm⟩
      · -- The loop ends at a null link, but a ring has none.
        rw [if_neg heq] at hr
        obtain ⟨y, hy, hnext, -⟩ := Ring.next_mem h hcurr
        rw [show (m curr).next = some y from hnext] at hr
        exact ih hy hr

/-- What a call of `remove` that ends has done: if the item was in the list, it is not any
more, and otherwise nothing. -/
theorem Represents.remove (h : Represents l m xs) (hr : l.Remove m item r) :
    ∃ l' m', r = .ok (decide (item ∈ xs), l', m') ∧ Represents l' m' (xs.erase item) ∧
      UnlinkedButLast m' xs (xs.erase item) ∧ ∀ q, q ∉ xs → m' q = m q := by
  obtain ⟨fuel, hr⟩ := hr
  unfold IntrusiveList.remove at hr
  have hlen := h.len
  match xs, h, hlen with
  | [], h, hlen =>
      rw [show l.len = 0 from hlen] at hr
      cases hr
      exact ⟨l, m, by simp, h, unlinkedButLast_refl m [], fun _ _ => rfl⟩
  | [x], h, hlen =>
      rw [show l.len = 1 from hlen] at hr
      simp only [h.head (by simp), List.head?_cons, Option.some.injEq] at hr
      by_cases heq : item = x
      · subst heq
        rw [if_pos rfl] at hr
        cases hr
        rw [List.erase_cons_head]
        refine ⟨⟨none, 0⟩, m, by simp, represents_empty m, ?_, fun _ _ => rfl⟩
        -- The only item keeps its links here too.
        have hrefl : UnlinkedButLast m ([] ++ []) ([] ++ []) := unlinkedButLast_refl m []
        exact hrefl.cons h.nodup (by simp [h.ring.ne_null]) .slnil
      · rw [if_neg heq] at hr
        cases hr
        rw [List.erase_of_not_mem (by simpa using heq)]
        exact ⟨l, m, by simp [heq], h, unlinkedButLast_refl m [x], fun _ _ => rfl⟩
  | x :: y :: xs, h, hlen =>
      rw [show l.len = xs.length + 1 + 1 from hlen] at hr
      rw [h.head (by simp)] at hr
      obtain ⟨hmem, rfl⟩ := removeLoop_spec h.ring fuel (by simp) hr
      obtain ⟨pre, post, -, hsplit, herase⟩ := List.exists_erase_eq hmem
      rw [hsplit] at h
      obtain ⟨l', m', hrem, hrep, hnull, hframe⟩ := h.removeInternal
      rw [herase, hsplit]
      refine ⟨l', m', ?_, hrep, ?_, hframe⟩
      · rw [hrem, decide_eq_true (hsplit ▸ hmem)]
        rfl
      · exact (unlinkedButLast_refl m' _).cons h.nodup hnull (List.Sublist.refl post)

/-- The search of `remove` along linked items finds the item behind those it is not. -/
theorem removeLoop_finds (pre : List P)
    (h : Linked (fun p => (m p).next) (fun p => (m p).prev) (pre ++ [item])) (hpre : item ∉ pre) :
    l.removeLoop m item (pre.length + 1) (pre ++ [item]).head?
      = some ((l.removeInternal m item).map fun (l, m) => (true, l, m)) := by
  induction pre with
  | nil =>
      simp only [List.nil_append, List.head?_cons, IntrusiveList.removeLoop, if_true]
  | cons x pre ih =>
      have hne : x ≠ item := fun heq => hpre (by simp [heq])
      obtain ⟨hnext, hrest⟩ := Linked.tail h
      simp only [List.cons_append, List.head?_cons, List.length_cons, IntrusiveList.removeLoop,
        if_neg hne, hnext]
      exact ih hrest fun hmem => hpre (List.mem_cons_of_mem x hmem)

/-- On a list of at most one item, `remove` of another item answers `false` at once. -/
theorem Represents.remove_short (h : Represents l m xs) (hitem : item ∉ xs) (hlen : l.len ≤ 1)
    (fuel : Nat) : l.remove m item fuel = some (.ok (false, l, m)) := by
  unfold IntrusiveList.remove
  have hxs := h.len
  match xs, h, hxs with
  | [], h, hxs =>
      rw [show l.len = 0 from hxs]
      rfl
  | [x], h, hxs =>
      rw [show l.len = 1 from hxs]
      simp only [h.head (by simp), List.head?_cons, Option.some.injEq]
      rw [if_neg (by simpa using hitem)]
  | x :: y :: xs, h, hxs =>
      rw [hxs] at hlen
      simp at hlen

/-- On a list of two or more items, `remove` of another item never ends. -/
theorem Represents.remove_diverges (h : Represents l m xs) (hitem : item ∉ xs) (hlen : 2 ≤ l.len)
    (fuel : Nat) : l.remove m item fuel = none := by
  cases hr : l.remove m item fuel with
  | none => rfl
  | some r =>
      exfalso
      unfold IntrusiveList.remove at hr
      have hxs := h.len
      match xs, h, hxs with
      | [], h, hxs =>
          rw [hxs] at hlen
          simp at hlen
      | [x], h, hxs =>
          rw [hxs] at hlen
          simp at hlen
      | x :: y :: xs, h, hxs =>
          rw [show l.len = xs.length + 1 + 1 from hxs, h.head (by simp)] at hr
          exact hitem (removeLoop_spec h.ring fuel (by simp) hr).1

/-- `remove` of an item of the list ends. -/
theorem Represents.remove_ends (h : Represents l m xs) (hmem : item ∈ xs) :
    ∃ r, l.Remove m item r := by
  unfold IntrusiveList.Remove IntrusiveList.remove
  have hlen := h.len
  match xs, h, hlen with
  | [x], h, hlen =>
      rw [show l.len = 1 from hlen]
      by_cases hhead : some item = l.head
      · exact ⟨_, 0, if_pos hhead⟩
      · exact ⟨_, 0, if_neg hhead⟩
  | x :: y :: xs, h, hlen =>
      obtain ⟨pre, post, hpre, hsplit, -⟩ := List.exists_erase_eq hmem
      have hlinked : Linked (fun p => (m p).next) (fun p => (m p).prev) (pre ++ [item]) := by
        have hring := h.ring
        rw [hsplit] at hring
        cases pre with
        | nil => trivial
        | cons x pre =>
            exact ((linked_append (x :: pre) (post ++ [x]) item).mp
              (by simpa [RingIn, Lib.Ring] using hring)).1
      have hhead : l.head = (pre ++ [item]).head? := by
        rw [h.head (by simp), hsplit]
        cases pre <;> rfl
      rw [show l.len = xs.length + 1 + 1 from hlen, hhead]
      exact ⟨_, pre.length + 1, removeLoop_finds pre hlinked hpre⟩

/-- The result of the search does not depend on the fuel. -/
theorem removeLoop_unique (fuel fuel' : Nat) (curr : Option P)
    {r' : Except Fault (Bool × IntrusiveList P × Memory P)}
    (h : l.removeLoop m item fuel curr = some r) (h' : l.removeLoop m item fuel' curr = some r') :
    r = r' := by
  induction fuel generalizing fuel' curr with
  | zero => cases h
  | succ fuel ih =>
      cases fuel' with
      | zero => cases h'
      | succ fuel' =>
          cases curr with
          | none => exact (Option.some.inj h).symm.trans (Option.some.inj h')
          | some x =>
              unfold IntrusiveList.removeLoop at h h'
              by_cases heq : x = item
              · rw [if_pos heq] at h h'
                exact (Option.some.inj h).symm.trans (Option.some.inj h')
              · rw [if_neg heq] at h h'
                exact ih fuel' _ h h'

theorem remove_unique {r' : Except Fault (Bool × IntrusiveList P × Memory P)}
    (h : l.Remove m item r) (h' : l.Remove m item r') : r = r' := by
  obtain ⟨fuel, h⟩ := h
  obtain ⟨fuel', h'⟩ := h'
  unfold IntrusiveList.remove at h h'
  match hlen : l.len with
  | 0 =>
      rw [hlen] at h h'
      exact (Option.some.inj h).symm.trans (Option.some.inj h')
  | 1 =>
      rw [hlen] at h h'
      exact Option.some.inj (h.symm.trans h')
  | n + 2 =>
      rw [hlen] at h h'
      exact removeLoop_unique fuel fuel' _ h h'

/-- `remove` does to the list what `removeSpec` does to its items. It ends exactly where
`removeSpec` has an answer, and then the answer and the items left are those of `removeSpec`. -/
theorem Represents.remove_refines (h : Represents l m xs) (item : P) :
    match IntrusiveList.removeSpec xs item with
    | none => ∀ r, ¬ l.Remove m item r
    | some (found, ys) =>
        ∃ l' m', (∀ r, l.Remove m item r ↔ r = .ok (found, l', m')) ∧ Represents l' m' ys := by
  unfold IntrusiveList.removeSpec
  by_cases hmem : item ∈ xs
  · rw [if_pos hmem]
    obtain ⟨r, hr⟩ := h.remove_ends hmem
    obtain ⟨l', m', rfl, hrep, -⟩ := h.remove hr
    rw [decide_eq_true hmem] at hr
    exact ⟨l', m', fun r => ⟨fun hr' => remove_unique hr' hr, fun heq => heq ▸ hr⟩, hrep⟩
  · rw [if_neg hmem]
    by_cases hlen : xs.length ≤ 1
    · rw [if_pos hlen]
      have hr : l.Remove m item (.ok (false, l, m)) :=
        ⟨0, h.remove_short hmem (by rw [h.len]; exact hlen) 0⟩
      exact ⟨l, m, fun r => ⟨fun hr' => remove_unique hr' hr, fun heq => heq ▸ hr⟩, h⟩
    · rw [if_neg hlen]
      rintro r ⟨fuel, hr⟩
      rw [h.remove_diverges hmem (by rw [h.len]; omega) fuel] at hr
      cases hr

/-! ### Any number of lists in one memory -/

/-- Some lists that share a memory. -/
structure Lists (L P : Type) where
  memory : Memory P
  lists : L → IntrusiveList P

namespace Lists

variable {L : Type} [DecidableEq L]

/-- Every list holds its items, and no item is in two lists. -/
structure Holds (s : Lists L P) (refs : L → List P) : Prop where
  represents : ∀ i, Represents (s.lists i) s.memory (refs i)
  disjoint : ∀ i j, i ≠ j → ∀ p ∈ refs i, p ∉ refs j

omit [DecidableEq P] in
/-- An operation on list `i` that touches only the links of `touched` keeps the other lists. -/
theorem Holds.update {s : Lists L P} {refs : L → List P} (h : Holds s refs) (i : L)
    {l' : IntrusiveList P} {m' : Memory P} {xs touched : List P} (hrep : Represents l' m' xs)
    (hsub : ∀ q ∈ xs, q ∈ touched) (htouched : ∀ j, j ≠ i → ∀ q ∈ refs j, q ∉ touched)
    (hframe : ∀ q, q ∉ touched → m' q = s.memory q) :
    Holds ⟨m', Function.update s.lists i l'⟩ (Function.update refs i xs) where
  represents := by
    intro j
    by_cases hj : j = i
    · subst hj
      simpa using hrep
    · simp only [update_of_ne hj]
      exact (h.represents j).congr fun q hq => hframe q (htouched j hj q hq)
  disjoint := by
    intro j j' hne p hp
    by_cases hj : j = i
    · subst hj
      rw [update_self] at hp
      rw [update_of_ne (Ne.symm hne)]
      exact fun hp' => htouched j' (Ne.symm hne) p hp' (hsub p hp)
    · rw [update_of_ne hj] at hp
      by_cases hj' : j' = i
      · subst hj'
        rw [update_self]
        exact fun hp' => htouched j hj p hp (hsub p hp')
      · rw [update_of_ne hj']
        exact h.disjoint j j' hne p hp

end Lists

end Kyron.Proofs.Containers
