import Kyron.Containers.ListOps
import Kyron.Proofs.Containers.IntrusiveList

/-!
# `Kyron.Proofs.Containers.ListOps`: the lists are sequences of distinct items

`Run links ok s refs` says that some operations, each under the guard `ok`, have led to the lists
`s`, and the same operations on sequences to `refs`. `Represents.ends` is what one operation does.

* `intrusive_lists_refine_sequences`: in every run each list holds its sequence, linked both ways
  around, and every next operation has one result, which is that of the sequence.
* `remove_not_member_iff`: `remove` of an item that is not in the list ends exactly when the list
  has at most one item.
* `removed_item_can_be_pushed`: an item that is in no list has null links, so `push_back` passes its
  debug assertions, as long as no `remove` and no `remove_if` takes the last item out of a list.

The condition is needed. `remove` and `remove_if` take the only item out of a list by forgetting the
head, and leave its link pointing to itself. `pushed_after_remove_asserts` and the second half of
`Represents.ends` show this.
-/

set_option autoImplicit false

namespace Kyron.Proofs.Containers

open Kyron.Lib
open Kyron.Containers

variable {P : Type}

/-- `remove_if` with a predicate that notes its calls has called it with every item. -/
theorem sift_logged (f : List P → P → Bool) (calls xs : List P) :
    sift (logged f) calls xs = (keep f calls xs, calls ++ xs) := by
  induction xs generalizing calls with
  | nil => simp [sift, keep]
  | cons x xs ih =>
      unfold sift keep
      simp only [logged, ih, List.append_assoc, List.singleton_append]

variable [DecidableEq P] {m m' : Memory P} {l : IntrusiveList P}

/-- An operation has one result. -/
theorem ends_unique {op : ListOp P}
    {r r' : Except Fault (ListAnswer P × IntrusiveList P × Memory P)} (h : op.Ends l m r)
    (h' : op.Ends l m r') : r = r' := by
  cases op with
  | pushBack item => exact h.trans h'.symm
  | popFront => exact h.trans h'.symm
  | removeIf f => exact h.trans h'.symm
  | remove item =>
      obtain ⟨r₁, hr₁, rfl⟩ := h
      obtain ⟨r₂, hr₂, rfl⟩ := h'
      rw [remove_unique hr₁ hr₂]

/-- An operation ends, unless it is a `remove` of an item that is not in the list. -/
theorem Represents.exists_ends {xs : List P} (h : Represents l m xs) {op : ListOp P}
    (hremove : ∀ item, op = .remove item → item ∈ xs) : ∃ r, op.Ends l m r := by
  cases op with
  | pushBack item => exact ⟨_, rfl⟩
  | popFront => exact ⟨_, rfl⟩
  | removeIf f => exact ⟨_, rfl⟩
  | remove item =>
      obtain ⟨r, hr⟩ := h.remove_ends (hremove item rfl)
      exact ⟨_, r, hr, rfl⟩

/-- The operations that take the only item out of a list without touching its link. -/
def ForgetsOnly : ListOp P → Bool
  | .removeIf _ => true
  | .remove _ => true
  | _ => false

/-- What an operation that ends has done to a list: its answer and the items that are left are those
of the sequence, and it has touched no link outside. The link of an item that has left is null,
unless a `remove` or a `remove_if` has taken it out as the last one. -/
theorem Represents.ends {xs : List P} (h : Represents l m xs) {op : ListOp P}
    (hpush : ∀ item, op = .pushBack item → item ∉ xs)
    {r : Except Fault (ListAnswer P × IntrusiveList P × Memory P)} (hr : op.Ends l m r) :
    ∃ l' m', r = .ok ((op.onSequence xs).1, l', m') ∧ Represents l' m' (op.onSequence xs).2 ∧
      (∀ x ∈ xs, x ∉ (op.onSequence xs).2 → (m' x = ⟨none, none⟩ ↔
        ¬ (ForgetsOnly op ∧ (op.onSequence xs).2 = [] ∧ xs.getLast? = some x))) ∧
      ∀ q, q ∉ xs → q ∉ (op.onSequence xs).2 → m' q = m q := by
  cases op with
  | pushBack item =>
      obtain ⟨l', m', hop, hrep, hframe⟩ := h.pushBack (hpush item rfl)
      refine ⟨l', m', ?_, hrep, fun x hx hleft => ?_, fun q _ hq => hframe q hq⟩
      · rw [show r = _ from hr, hop]
        rfl
      · exact absurd (List.mem_append_left _ hx) hleft
  | popFront =>
      obtain ⟨l', m', hop, hrep, hnull, hframe⟩ := h.popFront
      refine ⟨l', m', ?_, hrep, fun x hx hleft => ?_, fun q hq _ => hframe q hq⟩
      · rw [show r = _ from hr, hop]
        rfl
      · -- The only item that has left is the first one.
        have hhead : xs.head? = some x := by
          cases xs with
          | nil => cases hx
          | cons y ys =>
              rcases List.mem_cons.mp hx with rfl | hx
              · rfl
              · exact absurd hx hleft
        simp [hnull x hhead, ForgetsOnly]
  | removeIf f =>
      -- The calls of the closure are its state, so it can depend on those before.
      obtain ⟨l', m', hop, hrep, hleft, hframe⟩ := h.removeIf (logged f) []
      rw [sift_logged] at hop hrep hleft
      refine ⟨l', m', ?_, hrep, fun x hx hout => ?_, fun q hq _ => hframe q hq⟩
      · rw [show r = _ from hr, hop]
        rfl
      · exact (hleft x hx hout).trans (by simp [ForgetsOnly, ListOp.onSequence])
  | remove item =>
      obtain ⟨r', hr', rfl⟩ := hr
      obtain ⟨l', m', rfl, hrep, hleft, hframe⟩ := h.remove hr'
      refine ⟨l', m', rfl, hrep, fun x hx hout => ?_, fun q hq _ => hframe q hq⟩
      exact (hleft x hx hout).trans (by simp [ForgetsOnly, ListOp.onSequence])

namespace Lists

variable {L : Type} [DecidableEq L]

/-- Some operations have led from empty lists, in a memory with the given links, to the lists `s`,
and the same operations on sequences have led to `refs`. All of them met the guard `ok`, which sees
the sequence before the operation. -/
inductive Run (links : Memory P) (ok : List P → ListOp P → Prop) :
    Lists L P → (L → List P) → Prop
  | new : Run links ok ⟨links, fun _ => .empty⟩ fun _ => []
  | call {s : Lists L P} {refs : L → List P} {answer : ListAnswer P} {l' : IntrusiveList P}
      {m' : Memory P} (i : L) (op : ListOp P) (before : Run links ok s refs)
      (hallowed : op.Allowed refs) (hok : ok (refs i) op)
      (hends : op.Ends (s.lists i) s.memory (.ok (answer, l', m'))) :
      Run links ok ⟨m', Function.update s.lists i l'⟩
        (Function.update refs i (op.onSequence (refs i)).2)

variable {links : Memory P} {ok : List P → ListOp P → Prop} {s : Lists L P} {refs : L → List P}

omit [DecidableEq L] [DecidableEq P] in
theorem not_mem_of_allowed {op : ListOp P} (hallowed : op.Allowed refs) (i : L) (item : P)
    (hop : op = .pushBack item) : item ∉ refs i := by
  subst hop
  exact hallowed i

omit [DecidableEq L] in
/-- An item of a list is in no other list after an operation on that one. -/
theorem Holds.not_mem_onSequence (h : Holds s refs) {op : ListOp P} (hallowed : op.Allowed refs)
    {i j : L} (hj : j ≠ i) {q : P} (hq : q ∈ refs j) : q ∉ (op.onSequence (refs i)).2 := by
  have hother : q ∉ refs i := fun hmem => h.disjoint j i hj q hq hmem
  cases op with
  | pushBack item =>
      intro hmem
      rcases List.mem_append.mp hmem with hmem | hmem
      · exact hother hmem
      · exact hallowed j (List.mem_singleton.mp hmem ▸ hq)
  | popFront => exact fun hmem => hother (List.mem_of_mem_tail hmem)
  | removeIf f =>
      intro hmem
      have hsub := (sift_sublist (logged f) [] (refs i)).subset
      rw [sift_logged] at hsub
      exact hother (hsub hmem)
  | remove item => exact fun hmem => hother (List.mem_of_mem_erase hmem)

/-- One operation keeps all lists. -/
theorem Holds.call (h : Holds s refs) {op : ListOp P} (hallowed : op.Allowed refs) {i : L}
    {answer : ListAnswer P} {l' : IntrusiveList P} {m' : Memory P}
    (hends : op.Ends (s.lists i) s.memory (.ok (answer, l', m'))) :
    Holds ⟨m', Function.update s.lists i l'⟩
      (Function.update refs i (op.onSequence (refs i)).2) := by
  obtain ⟨l₁, m₁, hr, hrep, -, hframe⟩ :=
    (h.represents i).ends (not_mem_of_allowed hallowed i) hends
  cases hr
  have htouched : ∀ j, j ≠ i → ∀ q ∈ refs j, q ∉ refs i ++ (op.onSequence (refs i)).2 := by
    intro j hj q hq hmem
    rcases List.mem_append.mp hmem with hmem | hmem
    · exact h.disjoint j i hj q hq hmem
    · exact h.not_mem_onSequence hallowed hj hq hmem
  refine h.update i hrep (fun q hq => List.mem_append_right _ hq) htouched fun q hq => ?_
  rw [List.mem_append, not_or] at hq
  exact hframe q hq.1 hq.2

/-- In every run every list holds its sequence. -/
theorem Run.holds (h : Run links ok s refs) : Holds s refs := by
  induction h with
  | new => exact ⟨fun _ => represents_empty links, fun _ _ _ _ hp => by cases hp⟩
  | call i op before hallowed hok hends ih => exact ih.call hallowed hends

/-- For every number of lists in one memory, every contents of the links at the start and every
sequence of operations that push only items that are in no list: each list holds the sequence of its
items. Following `next` from the head for `len` steps visits them in order and leads back to the
head, `prev` and `next` are inverse to each other on them, they are distinct, and `len` is their
number. Every next operation that pushes an item that is in no list, or removes an item that is in
the list, has one result: it ends without following a null pointer, it answers what the same
operation on the sequence answers, and it leaves that sequence. So `pop_front` returns the oldest
item, `remove_if` calls its predicate once with each item, in order, and keeps those for which it
has answered `false`, and `remove` takes out its item. -/
theorem intrusive_lists_refine_sequences (h : Run links ok s refs) (i : L) :
    ((s.lists i).items s.memory = refs i ∧
      (fun p : Option P => p.bind fun q => (s.memory q).next)^[(s.lists i).len] (s.lists i).head =
        (s.lists i).head ∧
      (∀ p ∈ refs i, ∃ q ∈ refs i, (s.memory p).next = some q ∧ (s.memory q).prev = some p) ∧
      (∀ p ∈ refs i, ∃ q ∈ refs i, (s.memory p).prev = some q ∧ (s.memory q).next = some p) ∧
      (refs i).Nodup ∧ (s.lists i).len = (refs i).length) ∧
    ∀ op : ListOp P, op.Allowed refs → (∀ item, op = .remove item → item ∈ refs i) →
      ∃ l' m',
        (∀ r, op.Ends (s.lists i) s.memory r ↔ r = .ok ((op.onSequence (refs i)).1, l', m')) ∧
        l'.items m' = (op.onSequence (refs i)).2 := by
  have hrep := h.holds.represents i
  refine ⟨⟨hrep.items_eq, ?_, fun p hp => Ring.next_mem hrep.ring hp,
    fun p hp => Ring.prev_mem hrep.ring hp, hrep.nodup, hrep.len⟩, ?_⟩
  · rw [hrep.len]
    by_cases hempty : refs i = []
    · rw [hempty]
      rfl
    · rw [hrep.head hempty]
      exact Ring.iterate_eq hrep.ring
  · intro op hallowed hremove
    obtain ⟨r, hr⟩ := hrep.exists_ends hremove
    obtain ⟨l', m', rfl, hrep', -⟩ := hrep.ends (not_mem_of_allowed hallowed i) hr
    refine ⟨l', m', fun r => ⟨fun hr' => ends_unique hr' hr, ?_⟩, hrep'.items_eq⟩
    rintro rfl
    exact hr

/-- The guard that every operation meets. -/
def anyOp (_ : List P) (_ : ListOp P) : Prop := True

/-- The links of new items. -/
def freshLinks : Memory P := fun _ => ⟨none, none⟩

/-- An operation on the only list goes on with the run. -/
theorem Run.exists_call {s : Lists Unit P} {xs : List P} (h : Run links ok s fun _ => xs)
    (op : ListOp P) (hallowed : op.Allowed fun _ : Unit => xs) (hok : ok xs op)
    (hremove : ∀ item, op = .remove item → item ∈ xs) :
    ∃ s' : Lists Unit P, Run links ok s' (fun _ => (op.onSequence xs).2) ∧
      ∀ x ∈ xs, x ∉ (op.onSequence xs).2 → (s'.memory x = ⟨none, none⟩ ↔
        ¬ (ForgetsOnly op ∧ (op.onSequence xs).2 = [] ∧ xs.getLast? = some x)) := by
  have hrep := h.holds.represents ()
  obtain ⟨r, hr⟩ := hrep.exists_ends hremove
  obtain ⟨l', m', rfl, -, hnull, -⟩ := hrep.ends (not_mem_of_allowed hallowed ()) hr
  have hrun := h.call () op hallowed hok hr
  rw [show Function.update (fun _ => xs) () (op.onSequence xs).2 = fun _ => (op.onSequence xs).2
    from funext fun _ => Function.update_self _ _ _] at hrun
  exact ⟨_, hrun, hnull⟩

/-- One list to which the item 0 was pushed. -/
theorem exists_run_one (ok : List Nat → ListOp Nat → Prop) (hok : ∀ xs p, ok xs (.pushBack p)) :
    ∃ s : Lists Unit Nat, Run freshLinks ok s fun _ => [0] := by
  have hnew : Run (L := Unit) freshLinks ok _ _ := .new
  obtain ⟨s, hs, -⟩ := hnew.exists_call (.pushBack 0) (by rintro i ⟨⟩) (hok _ _) (by rintro item ⟨⟩)
  exact ⟨s, hs⟩

/-- One list to which the items 0 and 1 were pushed. -/
theorem exists_run_two (ok : List Nat → ListOp Nat → Prop) (hok : ∀ xs p, ok xs (.pushBack p)) :
    ∃ s : Lists Unit Nat, Run freshLinks ok s fun _ => [0, 1] := by
  obtain ⟨s, hs⟩ := exists_run_one ok hok
  have hnew : (ListOp.pushBack 1).Allowed fun _ : Unit => [0] := by
    intro i hmem
    cases List.mem_singleton.mp hmem
  obtain ⟨s, hs, -⟩ := hs.exists_call (.pushBack 1) hnew (hok _ _) (by rintro item ⟨⟩)
  exact ⟨s, hs⟩

/-- The item 0 is taken out of the list of the items 0 and 1. -/
theorem intrusive_lists_refine_sequences_two :
    ∃ s : Lists Unit Nat, Run freshLinks anyOp s (fun _ => [0, 1]) ∧ ∃ l' m',
      (∀ r, (ListOp.remove 0).Ends (s.lists ()) s.memory r ↔ r = .ok (.removed true, l', m')) ∧
      l'.items m' = [1] := by
  obtain ⟨s, hrun⟩ := exists_run_two anyOp fun _ _ => trivial
  obtain ⟨-, hcalls⟩ := intrusive_lists_refine_sequences hrun ()
  obtain ⟨l', m', hends, hitems⟩ := hcalls (.remove 0) trivial (by rintro item ⟨⟩; decide)
  exact ⟨s, hrun, l', m', hends, hitems⟩

/-! ### A `remove` that does not find its item -/

/-- The states that operations on the lists can reach, from any contents of the links. A closure of
`remove_if` answers by the items that it was called with before. A `remove` counts when it ends. -/
def Built (s : Lists L P) : Prop := ∃ links refs, Run links anyOp s refs

/-- In every state that operations can build, and for every item that is not in the list:
`remove` ends, answers `false` and changes nothing exactly when the list has at most one item.
On a longer list it never ends. -/
theorem remove_not_member_iff {s : Lists L P} (h : Built s) (i : L) (item : P)
    (hitem : item ∉ (s.lists i).items s.memory) :
    ((s.lists i).Remove s.memory item (.ok (false, s.lists i, s.memory)) ↔
      (s.lists i).len ≤ 1) ∧
    (2 ≤ (s.lists i).len → ∀ r, ¬ (s.lists i).Remove s.memory item r) := by
  obtain ⟨links, refs, hrun⟩ := h
  have hrep := hrun.holds.represents i
  rw [hrep.items_eq] at hitem
  have hdiverges : 2 ≤ (s.lists i).len → ∀ r, ¬ (s.lists i).Remove s.memory item r := by
    rintro hlen r ⟨fuel, hr⟩
    rw [hrep.remove_diverges hitem hlen fuel] at hr
    cases hr
  refine ⟨⟨fun hends => ?_, fun hlen => ⟨0, hrep.remove_short hitem hlen 0⟩⟩, hdiverges⟩
  by_contra hlen
  exact hdiverges (by omega) _ hends

/-- On a list of one item, `remove` of another item ends and answers `false`. -/
theorem remove_other_from_one :
    ∃ s : Lists Unit Nat, Built s ∧ (s.lists ()).items s.memory = [0] ∧
      (s.lists ()).Remove s.memory 1 (.ok (false, s.lists (), s.memory)) := by
  obtain ⟨s, hrun⟩ := exists_run_one anyOp fun _ _ => trivial
  have hs : Built s := ⟨freshLinks, _, hrun⟩
  have hrep := hrun.holds.represents ()
  have hitems := hrep.items_eq
  refine ⟨s, hs, hitems, (remove_not_member_iff hs () 1 (by rw [hitems]; decide)).1.mpr ?_⟩
  rw [hrep.len]
  exact Nat.le_refl 1

/-- On the list of the items 0 and 1, `remove` of the item 2 never ends. -/
theorem remove_other_from_two_diverges :
    ∃ s : Lists Unit Nat, Built s ∧ (s.lists ()).items s.memory = [0, 1] ∧
      ∀ r, ¬ (s.lists ()).Remove s.memory 2 r := by
  obtain ⟨s, hrun⟩ := exists_run_two anyOp fun _ _ => trivial
  have hrep := hrun.holds.represents ()
  refine ⟨s, ⟨freshLinks, _, hrun⟩, hrep.items_eq, ?_⟩
  rintro r ⟨fuel, hr⟩
  rw [hrep.remove_diverges (by decide) (by rw [hrep.len]; decide) fuel] at hr
  cases hr

/-! ### Items that have left -/

/-- Neither a `remove` nor a `remove_if` takes the last item out of a list. -/
def LeavesAnItem (xs : List P) (op : ListOp P) : Prop :=
  ForgetsOnly op → (op.onSequence xs).2 = [] → xs = []

omit [DecidableEq P] in
theorem isUnlinked_iff (link : Link P) : link.isUnlinked = true ↔ link = ⟨none, none⟩ := by
  obtain ⟨prev, next⟩ := link
  cases prev <;> cases next <;> simp [Link.isUnlinked]

/-- `push_back` passes its debug assertions when the link of the item is null. -/
theorem pushBackDebug_eq {item : P} (hnull : m item = ⟨none, none⟩) :
    l.pushBackDebug m item = some (l.pushBack m item) := by
  have hunlinked := (isUnlinked_iff (m item)).mpr hnull
  unfold IntrusiveList.pushBackDebug IntrusiveList.pushBack Memory.insertLinkBeforeDebug
  by_cases hlen : l.len = 0
  · rw [if_pos hlen, if_pos hlen, if_pos hunlinked]
  · rw [if_neg hlen, if_neg hlen]
    cases deref l.head with
    | error fault => rfl
    | ok head =>
        dsimp only
        rw [if_pos hunlinked]
        rfl

omit [DecidableEq L] in
/-- An operation that leaves an item in the list has reset the links of those that have left. -/
theorem Holds.unlinked (h : Holds s refs) {op : ListOp P} (hallowed : op.Allowed refs) {i : L}
    (hok : LeavesAnItem (refs i) op) {answer : ListAnswer P} {l' : IntrusiveList P} {m' : Memory P}
    (hends : op.Ends (s.lists i) s.memory (.ok (answer, l', m'))) {item : P} (hitem : item ∈ refs i)
    (hleft : item ∉ (op.onSequence (refs i)).2) : m' item = ⟨none, none⟩ := by
  obtain ⟨l₁, m₁, hr, -, hnull, -⟩ :=
    (h.represents i).ends (not_mem_of_allowed hallowed i) hends
  cases hr
  refine (hnull item hitem hleft).mpr ?_
  rintro ⟨hforgets, hempty, -⟩
  rw [hok hforgets hempty] at hitem
  cases hitem

/-- As long as operations leave an item in the list, an item that is in no list has null links. -/
theorem Run.null_of_free (h : Run freshLinks LeavesAnItem s refs) {item : P}
    (hfree : ∀ i, item ∉ refs i) : s.memory item = ⟨none, none⟩ := by
  induction h with
  | new => rfl
  | @call s refs answer l' m' i op before hallowed hok hends ih =>
      have hafter : item ∉ (op.onSequence (refs i)).2 := by
        have hself := hfree i
        rwa [Function.update_self] at hself
      by_cases hitem : item ∈ refs i
      · exact before.holds.unlinked hallowed hok hends hitem hafter
      · -- The operation has nothing to do with the item.
        obtain ⟨l₁, m₁, hr, -, -, hframe⟩ :=
          (before.holds.represents i).ends (not_mem_of_allowed hallowed i) hends
        cases hr
        show m' item = _
        rw [hframe item hitem hafter]
        refine ih fun j => ?_
        by_cases hj : j = i
        · rw [hj]
          exact hitem
        · have hother := hfree j
          rwa [Function.update_of_ne hj] at hother

/-- For every number of lists in one memory, new items, and every sequence of operations in which no
`remove` and no `remove_if` takes the last item out of a list: whenever a further such operation
takes an item out of a list, its link has null `prev` and `next` afterwards, and `push_back` of an
item that is in no list passes the debug assertions of `push_back` and `insert_link_before`. -/
theorem removed_item_can_be_pushed (h : Run freshLinks LeavesAnItem s refs) :
    (∀ (i : L) (op : ListOp P) (answer : ListAnswer P) (l' : IntrusiveList P) (m' : Memory P),
      op.Allowed refs → LeavesAnItem (refs i) op →
      op.Ends (s.lists i) s.memory (.ok (answer, l', m')) →
      ∀ item ∈ (s.lists i).items s.memory, item ∉ l'.items m' → m' item = ⟨none, none⟩) ∧
    ∀ item, (∀ i, item ∉ (s.lists i).items s.memory) → ∀ i,
      (s.lists i).pushBackDebug s.memory item = some ((s.lists i).pushBack s.memory item) := by
  have hholds := h.holds
  refine ⟨?_, ?_⟩
  · intro i op answer l' m' hallowed hok hends item hitem hleft
    rw [(hholds.represents i).items_eq] at hitem
    have hafter := (hholds.call hallowed hends).represents i
    simp only [Function.update_self] at hafter
    rw [hafter.items_eq] at hleft
    exact hholds.unlinked hallowed hok hends hitem hleft
  · intro item hfree i
    refine pushBackDebug_eq (h.null_of_free fun j => ?_)
    rw [← (hholds.represents j).items_eq]
    exact hfree j

/-- The item 0 is popped from the list of the items 0 and 1, and can be pushed again. -/
theorem removed_item_can_be_pushed_popped :
    ∃ s : Lists Unit Nat, Run freshLinks LeavesAnItem s (fun _ => [1]) ∧
      (s.lists ()).pushBackDebug s.memory 0 = some ((s.lists ()).pushBack s.memory 0) := by
  obtain ⟨s, hrun⟩ := exists_run_two LeavesAnItem fun _ _ hforgets => by cases hforgets
  obtain ⟨s, hrun, -⟩ := hrun.exists_call .popFront trivial (fun hforgets => by cases hforgets)
    (by rintro item ⟨⟩)
  refine ⟨s, hrun, (removed_item_can_be_pushed hrun).2 0 (fun i => ?_) ()⟩
  rw [(hrun.holds.represents i).items_eq]
  decide

/-- The only item of a list is taken out by an operation that only forgets the head. Its link is not
null then, and `push_back` of it fails a debug assertion. -/
theorem exists_forgotten (op : ListOp Nat) (hforgets : ForgetsOnly op)
    (hremove : ∀ item, op = .remove item → item ∈ [0]) (hempty : (op.onSequence [0]).2 = []) :
    ∃ s : Lists Unit Nat, Run freshLinks anyOp s (fun _ => [0]) ∧ ∃ answer l' m',
      op.Ends (s.lists ()) s.memory (.ok (answer, l', m')) ∧ l'.items m' = [] ∧
      m' 0 ≠ ⟨none, none⟩ ∧ l'.pushBackDebug m' 0 = none := by
  obtain ⟨s, hrun⟩ := exists_run_one anyOp fun _ _ => trivial
  have hrep := hrun.holds.represents ()
  obtain ⟨r, hr⟩ := hrep.exists_ends hremove
  obtain ⟨l', m', rfl, hrep', hnull, -⟩ := hrep.ends (by rintro item rfl; cases hforgets) hr
  rw [hempty] at hrep' hnull
  have hlink : m' 0 ≠ ⟨none, none⟩ := fun hlink =>
    (hnull 0 (by decide) (by decide)).mp hlink ⟨hforgets, rfl, rfl⟩
  refine ⟨s, hrun, _, l', m', hr, hrep'.items_eq, hlink, ?_⟩
  unfold IntrusiveList.pushBackDebug
  rw [if_pos (show l'.len = 0 from hrep'.len), if_neg]
  exact fun hunlinked => hlink ((isUnlinked_iff _).mp hunlinked)

/-- The item 0 is pushed to a new list and taken out again with `remove`, or with a `remove_if` that
matches it. The list is empty then, the link of the item is not null, and `push_back` of it fails a
debug assertion. -/
theorem pushed_after_remove_asserts :
    (∃ s : Lists Unit Nat, Run freshLinks anyOp s (fun _ => [0]) ∧ ∃ answer l' m',
      (ListOp.remove 0).Ends (s.lists ()) s.memory (.ok (answer, l', m')) ∧ l'.items m' = [] ∧
      m' 0 ≠ ⟨none, none⟩ ∧ l'.pushBackDebug m' 0 = none) ∧
    ∃ s : Lists Unit Nat, Run freshLinks anyOp s (fun _ => [0]) ∧ ∃ answer l' m',
      (ListOp.removeIf fun _ _ => true).Ends (s.lists ()) s.memory (.ok (answer, l', m')) ∧
      l'.items m' = [] ∧ m' 0 ≠ ⟨none, none⟩ ∧ l'.pushBackDebug m' 0 = none :=
  ⟨exists_forgotten (.remove 0) rfl (by rintro item ⟨⟩; decide) rfl,
    exists_forgotten (.removeIf fun _ _ => true) rfl (by rintro item ⟨⟩) rfl⟩

end Lists

end Kyron.Proofs.Containers
