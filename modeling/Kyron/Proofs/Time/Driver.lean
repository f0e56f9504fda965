import Kyron.Proofs.Time.Wheel

/-!
# `Kyron.Proofs.Time.Driver`: the five levels together

`LevelsOk t levels` says that every level satisfies its invariant at time `t`. `nodes` is the
multiset of the nodes that the levels hold, and `PoolOk` says of a multiset of nodes that
their addresses are distinct and handed out by the pool.

* `findNextExpiring_spec`: the search over the levels answers a slot whose block begins no
  later than the block of any other node.
* `registerAt_spec`: filing a node under the level of its deadline keeps the invariant and
  adds exactly that node.
* `fixedPool_lawful`: the assumptions on the allocator can be met.
-/

set_option autoImplicit false

namespace Kyron.Proofs.Time

open Kyron.Lib
open Kyron.Time

variable {P W : Type}

/-- The nodes of a family of levels. Irreducible for the reason given at `wheelNodes`. -/
@[irreducible] def nodes (levels : Fin maxLevels → TimeWheel W) : Multiset (TimeEntry W) :=
  ∑ l, wheelNodes (levels l)

/-- How much work the nodes of a family of levels can still cause: a node at level `l` is
touched at most `l + 1` more times. -/
@[irreducible] def work (levels : Fin maxLevels → TimeWheel W) : Nat :=
  ∑ l : Fin maxLevels, ((l : Nat) + 1) * (wheelNodes (levels l)).card

/-- Every level satisfies its invariant at time `t`. -/
def LevelsOk (t : UInt64) (levels : Fin maxLevels → TimeWheel W) : Prop :=
  ∀ l : Fin maxLevels, WheelOk t l (levels l)

/-- The nodes `m` have distinct addresses, all handed out by the pool. -/
structure PoolOk (live : P → NodeAddr → Prop) (p : P) (m : Multiset (TimeEntry W)) : Prop where
  distinct : (m.map TimeEntry.addr).Nodup
  isLive : ∀ e ∈ m, live p e.addr

theorem mem_nodes {levels : Fin maxLevels → TimeWheel W} {e : TimeEntry W} :
    e ∈ nodes levels ↔ ∃ l i, e ∈ (levels l).slots i := by
  unfold nodes
  rw [Multiset.mem_sum]
  simp only [Finset.mem_univ, mem_wheelNodes, true_and]

/-- The nodes when one level is replaced. -/
theorem nodes_update (levels : Fin maxLevels → TimeWheel W) (l : Fin maxLevels)
    (w : TimeWheel W) :
    wheelNodes (levels l) + nodes (Function.update levels l w) = wheelNodes w + nodes levels := by
  unfold nodes
  exact sum_update (fun _ w => wheelNodes w) levels l w

/-- The work when one level is replaced. -/
theorem work_update (levels : Fin maxLevels → TimeWheel W) (l : Fin maxLevels)
    (w : TimeWheel W) :
    (l + 1) * (wheelNodes (levels l)).card + work (Function.update levels l w)
      = (l + 1) * (wheelNodes w).card + work levels := by
  unfold work
  exact sum_update (fun (l : Fin maxLevels) w => ((l : Nat) + 1) * (wheelNodes w).card) levels l w

/-! ### The empty driver -/

theorem levelsOk_new (t : UInt64) :
    LevelsOk t (fun l : Fin maxLevels => (TimeWheel.new l : TimeWheel W)) :=
  fun l => wheelOk_new t l

theorem nodes_new : nodes (fun l : Fin maxLevels => (TimeWheel.new l : TimeWheel W)) = 0 := by
  unfold nodes
  simp only [wheelNodes_new, Finset.sum_const_zero]

theorem poolOk_zero (live : P → NodeAddr → Prop) (p : P) :
    PoolOk live p (0 : Multiset (TimeEntry W)) where
  distinct := by simp
  isLive := by simp

/-! ### The pool -/

section Pool

variable {pool : NodePool P} {live : P → NodeAddr → Prop}

/-- A node at a fresh address joins the nodes in use. -/
theorem PoolOk.allocate (hpool : pool.Lawful live) {p p' : P} {addr : NodeAddr}
    (halloc : pool.allocate p = some (addr, p')) {m : Multiset (TimeEntry W)}
    (h : PoolOk live p m) (data : TimeoutData W) : PoolOk live p' (⟨addr, data⟩ ::ₘ m) where
  distinct := by
    rw [Multiset.map_cons, Multiset.nodup_cons]
    refine ⟨fun hmem => ?_, h.distinct⟩
    obtain ⟨e, he, haddr⟩ := Multiset.mem_map.mp hmem
    change e.addr = addr at haddr
    exact hpool.allocate_fresh p addr p' halloc (haddr ▸ h.isLive e he)
  isLive := by
    intro e he
    rw [hpool.allocate_live p addr p' halloc]
    rcases Multiset.mem_cons.mp he with rfl | he
    · exact Or.inl rfl
    · exact Or.inr (h.isLive e he)

/-- The nodes that are left when one is freed stay in use. -/
theorem PoolOk.deallocate (hpool : pool.Lawful live) {p : P} {e : TimeEntry W}
    {m : Multiset (TimeEntry W)} (h : PoolOk live p (e ::ₘ m)) :
    PoolOk live (pool.deallocate p e.addr) m := by
  have hdistinct := h.distinct
  rw [Multiset.map_cons, Multiset.nodup_cons] at hdistinct
  refine ⟨hdistinct.2, fun e' he' => ?_⟩
  rw [hpool.deallocate_live p e.addr (h.isLive e (Multiset.mem_cons_self e m))]
  refine ⟨fun haddr => ?_, h.isLive e' (Multiset.mem_cons_of_mem he')⟩
  exact hdistinct.1 (haddr ▸ Multiset.mem_map_of_mem _ he')

end Pool

/-- The allocator of `cap` nodes meets the assumptions. -/
theorem fixedPool_lawful (cap : Nat) :
    (fixedPool cap).Lawful fun used (a : NodeAddr) => a ∈ used where
  allocate_fresh := by
    intro used a used' halloc
    obtain ⟨b, hfind, heq⟩ := Option.map_eq_some_iff.mp halloc
    cases heq
    simpa using List.find?_some hfind
  allocate_live := by
    intro used a used' halloc b
    obtain ⟨c, -, heq⟩ := Option.map_eq_some_iff.mp halloc
    cases heq
    exact List.mem_cons
  deallocate_live := by
    intro used a _ b
    simp [fixedPool, and_comm]

/-! ### The search over the levels -/

/-- The search over a family of levels answers the first level that answers something. -/
theorem firstExpiration_ofFn {now : UInt64} {n : Nat} (f : Fin n → TimeWheel W)
    (h : ∀ i, (f i).nextExpiration now = .ok none ∨
      ∃ info, (f i).nextExpiration now = .ok (some info)) :
    (Inner.firstExpiration now (List.ofFn f) = .ok none ∧
      ∀ i, (f i).nextExpiration now = .ok none) ∨
    ∃ i info, Inner.firstExpiration now (List.ofFn f) = .ok (some info) ∧
      (f i).nextExpiration now = .ok (some info) ∧
      ∀ j < i, (f j).nextExpiration now = .ok none := by
  induction n with
  | zero => exact Or.inl ⟨rfl, fun i => i.elim0⟩
  | succ n ih =>
      rw [List.ofFn_succ]
      unfold Inner.firstExpiration
      rcases h 0 with h0 | ⟨info, h0⟩
      · rw [h0]
        rcases ih (fun i => f i.succ) (fun i => h i.succ) with ⟨hnone, hall⟩ |
          ⟨i, info, hsome, hi, hlow⟩
        · exact Or.inl ⟨hnone, fun i => Fin.cases h0 hall i⟩
        · refine Or.inr ⟨i.succ, info, hsome, hi, fun j hj => ?_⟩
          cases j using Fin.cases with
          | zero => exact h0
          | succ j => exact hlow j (Fin.succ_lt_succ_iff.mp hj)
      · rw [h0]
        exact Or.inr ⟨0, info, rfl, h0, fun j hj => absurd hj (Fin.not_lt_zero j)⟩

/-- What `find_next_expiring` answers: nothing when no node is pending, and otherwise a slot
in use whose block begins no later than the block of any node, and strictly before the block
of every node outside the slot. -/
theorem findNextExpiring_spec {s : Time.Inner P W} (h : LevelsOk s.lastCheckTime s.levels) :
    (nodes s.levels = 0 ∧ s.findNextExpiring s.lastCheckTime = .ok none) ∨
    ∃ (l : Fin maxLevels) (info : ExpireInfo),
      s.findNextExpiring s.lastCheckTime = .ok (some info) ∧ info.level = l ∧
      (s.levels l).slots info.slotId ≠ [] ∧ s.lastCheckTime ≤ info.deadline ∧
      (∀ e ∈ (s.levels l).slots info.slotId,
        info.deadline.toNat = blockStart 64 l e.data.expireAt.toNat) ∧
      (∀ (l' : Fin maxLevels) i, (l', i) ≠ (l, info.slotId) → ∀ e ∈ (s.levels l').slots i,
        info.deadline.toNat < blockStart 64 l' e.data.expireAt.toNat) := by
  have hspec := fun l : Fin maxLevels => nextExpiration_spec l.isLt (h l)
  have hcases : ∀ l, (s.levels l).nextExpiration s.lastCheckTime = .ok none ∨
      ∃ info, (s.levels l).nextExpiration s.lastCheckTime = .ok (some info) := fun l =>
    (hspec l).imp And.right fun ⟨info, hinfo, _⟩ => ⟨info, hinfo⟩
  have hempty : ∀ l, (s.levels l).nextExpiration s.lastCheckTime = .ok none →
      wheelNodes (s.levels l) = 0 := by
    intro l hl
    rcases hspec l with ⟨hzero, -⟩ | ⟨info, hinfo, -⟩
    · exact hzero
    · rw [hl] at hinfo
      cases hinfo
  rcases firstExpiration_ofFn s.levels hcases with ⟨hnone, hall⟩ | ⟨l, info, hsome, hl, hlow⟩
  · refine Or.inl ⟨?_, hnone⟩
    unfold nodes
    exact Finset.sum_eq_zero fun l _ => hempty l (hall l)
  · right
    rcases hspec l with ⟨-, hnone⟩ | ⟨info', hinfo, hlevel, hne, hle, hin, hout⟩
    · rw [hl] at hnone
      cases hnone
    · rw [hl] at hinfo
      cases hinfo
      refine ⟨l, info, hsome, hlevel, hne, hle, hin, fun l' i hpos e he => ?_⟩
      rcases lt_trichotomy l' l with hlt | rfl | hgt
      · -- The levels below the answered one are empty.
        have hmem : e ∈ wheelNodes (s.levels l') := mem_wheelNodes.mpr ⟨i, he⟩
        rw [hempty l' (hlow l' hlt)] at hmem
        exact absurd hmem (Multiset.notMem_zero e)
      · exact hout i (fun hi => hpos (by rw [hi])) e he
      · obtain ⟨e₀, he₀⟩ := List.exists_mem_of_ne_nil _ hne
        rw [hin e₀ he₀]
        exact ((h l).filed _ e₀ he₀).blockStart_lt_of_level_lt ((h l').filed i e he)
          (by decide) hgt

/-! ### Filing one node -/

/-- Filing a node under the level of its deadline at time `t` keeps every level's invariant at
`t` and adds exactly that node. It costs at most one unit of work more than its level. -/
theorem registerAt_spec {s : Time.Inner P W} {t : UInt64} (h : LevelsOk t s.levels)
    (e : TimeEntry W) (hle : t ≤ e.data.expireAt)
    (hlevel : computeLevelForTimer t e.data.expireAt < maxLevels) :
    ∃ levels, s.registerAt (computeLevelForTimer t e.data.expireAt) e = .ok { s with levels } ∧
      LevelsOk t levels ∧ nodes levels = e ::ₘ nodes s.levels ∧
      work levels = computeLevelForTimer t e.data.expireAt + 1 + work s.levels := by
  have hreg : s.registerAt (computeLevelForTimer t e.data.expireAt) e = .ok { s with
      levels := Function.update s.levels ⟨computeLevelForTimer t e.data.expireAt, hlevel⟩
        ((s.levels ⟨computeLevelForTimer t e.data.expireAt, hlevel⟩).registerWakeupOnTimeout
          e.data.expireAt e) } := by
    unfold Inner.registerAt
    rw [dif_pos hlevel]
  have hfiled := filed_computeLevelForTimer hle
  generalize hl : (⟨computeLevelForTimer t e.data.expireAt, hlevel⟩ : Fin maxLevels) = l at hreg
  have hlval : (l : Nat) = computeLevelForTimer t e.data.expireAt := by rw [← hl]
  refine ⟨_, hreg, ?_, ?_, ?_⟩
  · intro l'
    by_cases hl' : l' = l
    · subst hl'
      rw [Function.update_self]
      exact (h l').register l'.isLt e (by rw [hlval]; exact hfiled)
    · rw [Function.update_of_ne hl']
      exact h l'
  · have hsum := nodes_update s.levels l
      ((s.levels l).registerWakeupOnTimeout e.data.expireAt e)
    rw [wheelNodes_register, Multiset.cons_add, ← Multiset.add_cons] at hsum
    exact add_left_cancel hsum
  · have hsum := work_update s.levels l
      ((s.levels l).registerWakeupOnTimeout e.data.expireAt e)
    rw [wheelNodes_register, Multiset.card_cons, Nat.mul_add, Nat.mul_one, hlval] at hsum
    omega

end Kyron.Proofs.Time
