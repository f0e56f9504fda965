import Kyron.Proofs.Time.Driver

/-!
# `Kyron.Proofs.Time.Process`: every timer is woken exactly once and on time

`process_internal` goes from one slot to the next. Each iteration takes the slot whose block
begins first, wakes the nodes that are due at that beginning and files the others again at
lower levels. `processStep_spec` is one iteration, `processLoop_spec` the whole loop: the
work left falls with every iteration, so the loop ends.

`Run` is a run of the driver with the lists of registered and woken timers.
`processInternal_wakes_due` is the result about it: in every state of every run, a call of
`process_internal` ends, wakes the pending nodes that are due and no others, in the order of
their deadlines, and leaves the rest of the nodes as they are; and what was registered is what
was woken together with what is pending.
-/

set_option autoImplicit false

namespace Kyron.Proofs.Time

open Kyron.Lib
open Kyron.Time
open Inner

variable {P W : Type} {pool : NodePool P} {live : P → NodeAddr → Prop}

/-- The node is due at time `t`. -/
abbrev IsDue (t : UInt64) (e : TimeEntry W) : Prop := e.data.expireAt ≤ t

/-- The invariant of the driver between two calls, and between two iterations. -/
structure DriverOk (live : P → NodeAddr → Prop) (s : Time.Inner P W) : Prop where
  levels : LevelsOk s.lastCheckTime s.levels
  pool : PoolOk live s.pool (nodes s.levels)

theorem driverOk_new (live : P → NodeAddr → Prop) (p : P) (startTime : Instant) :
    DriverOk live (Inner.new p startTime : Time.Inner P W) where
  levels := levelsOk_new 0
  pool := by
    show PoolOk live p (nodes fun l : Fin maxLevels => (TimeWheel.new l : TimeWheel W))
    rw [nodes_new]
    exact poolOk_zero live p

/-! ### One iteration -/

variable {t deadline now : UInt64} {e : TimeEntry W} {s s' : Time.Inner P W}
variable {woken : List (TimeoutData W)} {waker : W}

/-- Going over an acquired chain at time `t`. The nodes that are due are woken and freed. The
others are filed again, each at a level below `b`. -/
theorem processEntries_spec (hpool : pool.Lawful live) {b : Nat} (hb : b ≤ maxLevels)
    (es : List (TimeEntry W)) (s : Time.Inner P W) (hlevels : LevelsOk t s.levels)
    (hes : ∀ e ∈ es, ¬ IsDue t e → computeLevelForTimer t e.data.expireAt < b)
    (hnodes : PoolOk live s.pool ((es : Multiset (TimeEntry W)) + nodes s.levels)) :
    ∃ levels p,
      Inner.processEntries pool t es s = .ok ({ s with levels, pool := p },
        (es.filter (IsDue t ·)).map TimeEntry.data) ∧
      LevelsOk t levels ∧ PoolOk live p (nodes levels) ∧
      nodes levels = (es.filter (¬ IsDue t ·) : Multiset (TimeEntry W)) + nodes s.levels ∧
      work levels ≤ b * es.length + work s.levels := by
  -- The pool invariant spans the chain that is left and the filed nodes, so that it says the same
  -- before and after a node moves from one to the other.
  induction es generalizing s with
  | nil => exact ⟨s.levels, s.pool, rfl, hlevels, by simpa using hnodes, by simp, by simp⟩
  | cons e es ih =>
      have hes' : ∀ e' ∈ es, ¬ IsDue t e' → computeLevelForTimer t e'.data.expireAt < b :=
        fun e' he' => hes e' (List.mem_cons_of_mem e he')
      rw [← Multiset.cons_coe, Multiset.cons_add] at hnodes
      unfold processEntries
      by_cases hdue : IsDue t e
      · obtain ⟨levels, p, hrun, hok, hp, hn, hw⟩ :=
          ih { s with pool := pool.deallocate s.pool e.addr } hlevels hes' (hnodes.deallocate hpool)
        refine ⟨levels, p, ?_, hok, hp, ?_, ?_⟩
        · rw [if_pos hdue, hrun, List.filter_cons_of_pos (by simpa using hdue)]
          rfl
        · rw [List.filter_cons_of_neg (by simpa using hdue)]
          exact hn
        · rw [List.length_cons, Nat.mul_succ]
          exact Nat.le_trans hw (by simp only; omega)
      · have hlevel := hes e List.mem_cons_self hdue
        have hle : t ≤ e.data.expireAt := UInt64.le_of_lt (UInt64.not_le.mp hdue)
        obtain ⟨levels₁, hreg, hok₁, hn₁, hw₁⟩ :=
          registerAt_spec hlevels e hle (Nat.lt_of_lt_of_le hlevel hb)
        obtain ⟨levels, p, hrun, hok, hp, hn, hw⟩ := ih { s with levels := levels₁ } hok₁ hes' (by
          show PoolOk live s.pool ((es : Multiset (TimeEntry W)) + nodes levels₁)
          rw [hn₁, Multiset.add_cons]
          exact hnodes)
        refine ⟨levels, p, ?_, hok, hp, ?_, ?_⟩
        · rw [if_neg hdue, hreg, List.filter_cons_of_neg (by simpa using hdue)]
          exact hrun
        · rw [hn, List.filter_cons_of_pos (by simpa using hdue), ← Multiset.cons_coe]
          show _ + nodes levels₁ = _
          rw [hn₁, Multiset.add_cons, Multiset.cons_add]
        · rw [List.length_cons, Nat.mul_succ]
          simp only at hw
          omega

/-- A node whose block begins after `t` is not due at `t`. -/
theorem not_isDue_of_lt_blockStart {l : Nat} (h : t.toNat < blockStart 64 l e.data.expireAt.toNat) :
    ¬ IsDue t e := by
  intro hdue
  have hdueNat := UInt64.le_iff_toNat_le.mp hdue
  have hstart := blockStart_le 64 l e.data.expireAt.toNat
  omega

/-- The slots that are left when the answered slot is emptied stay filed at its deadline, and
none of their nodes is due by then. -/
theorem levelsOk_emptied {last : UInt64} {levels : Fin maxLevels → TimeWheel W}
    (h : LevelsOk last levels) (l : Fin maxLevels) (slotId : Fin 64) (hle : last ≤ deadline)
    (hout : ∀ (l' : Fin maxLevels) i, (l', i) ≠ (l, slotId) → ∀ e ∈ (levels l').slots i,
      deadline.toNat < blockStart 64 l' e.data.expireAt.toNat) :
    LevelsOk deadline (Function.update levels l (emptied (levels l) slotId)) ∧
    ∀ e ∈ nodes (Function.update levels l (emptied (levels l) slotId)), ¬ IsDue deadline e := by
  have hleNat : last.toNat ≤ deadline.toNat := UInt64.le_iff_toNat_le.mp hle
  have hfiled : ∀ (l' : Fin maxLevels) i, (l', i) ≠ (l, slotId) → ∀ e ∈ (levels l').slots i,
      Filed 64 l' deadline.toNat e.data.expireAt.toNat := fun l' i hpos e he =>
    ((h l').filed i e he).advance_of_lt (by decide) hleNat (hout l' i hpos e he)
  constructor
  · intro l'
    by_cases hl' : l' = l
    · subst hl'
      rw [Function.update_self]
      exact (h l').emptied slotId fun i hi =>
        hfiled l' i fun heq => hi (congrArg Prod.snd heq)
    · rw [Function.update_of_ne hl']
      exact { level_eq := (h l').level_eq, occupied := (h l').occupied, slot := (h l').slot,
              filed := fun i => hfiled l' i fun heq => hl' (congrArg Prod.fst heq) }
  · intro e he hdue
    obtain ⟨l', i, hmem⟩ := mem_nodes.mp he
    have hpos : (l', i) ≠ (l, slotId) ∧ e ∈ (levels l').slots i := by
      by_cases hl' : l' = l
      · subst hl'
        rw [Function.update_self] at hmem
        obtain ⟨hi, hmem⟩ := mem_emptied_slots.mp hmem
        exact ⟨fun heq => hi (congrArg Prod.snd heq), hmem⟩
      · rw [Function.update_of_ne hl'] at hmem
        exact ⟨fun heq => hl' (congrArg Prod.fst heq), hmem⟩
    exact not_isDue_of_lt_blockStart (hout l' i hpos.1 e hpos.2) hdue

/-- A node of the answered slot goes to a level below that of the slot, unless it is due. -/
theorem level_lt_of_not_due {l : Nat}
    (hstart : deadline.toNat = blockStart 64 l e.data.expireAt.toNat) (hdue : ¬ IsDue deadline e) :
    computeLevelForTimer deadline e.data.expireAt < l := by
  cases l with
  | zero =>
      -- At level 0 a slot is one millisecond, so every node in it is due.
      refine absurd (UInt64.le_iff_toNat_le.mpr ?_) hdue
      rw [hstart]
      simp [blockStart]
  | succ l =>
      rw [Nat.lt_succ_iff, computeLevelForTimer_le_iff, hstart, block_blockStart (by decide)]

/-- The nodes of the wheel are those of a slot and those that are left when it is emptied. -/
theorem nodes_emptied (levels : Fin maxLevels → TimeWheel W) (l : Fin maxLevels) (i : Fin 64) :
    nodes levels = ((levels l).slots i : Multiset (TimeEntry W))
      + nodes (Function.update levels l (emptied (levels l) i)) := by
  have hsum := nodes_update levels l (emptied (levels l) i)
  rw [wheelNodes_emptied (levels l) i, add_right_comm, add_comm _ (nodes levels),
    add_right_cancel_iff] at hsum
  exact hsum.symm

/-- `process_expired` on the slot whose block begins first: all nodes that are due at the
deadline are woken, the others stay, and there is less work left. -/
theorem processExpired_spec (hpool : pool.Lawful live) (h : DriverOk live s) {l : Fin maxLevels}
    {info : ExpireInfo} (hlevel : info.level = l) (hne : (s.levels l).slots info.slotId ≠ [])
    (hle : s.lastCheckTime ≤ info.deadline) (hin : ∀ e ∈ (s.levels l).slots info.slotId,
      info.deadline.toNat = blockStart 64 l e.data.expireAt.toNat)
    (hout : ∀ (l' : Fin maxLevels) i, (l', i) ≠ (l, info.slotId) → ∀ e ∈ (s.levels l').slots i,
      info.deadline.toNat < blockStart 64 l' e.data.expireAt.toNat) :
    ∃ levels p woken, s.processExpired pool info = .ok ({ s with levels, pool := p }, woken) ∧
      LevelsOk info.deadline levels ∧ PoolOk live p (nodes levels) ∧
      work levels < work s.levels ∧
      (woken : Multiset (TimeoutData W))
        = ((nodes s.levels).filter (IsDue info.deadline)).map TimeEntry.data ∧
      nodes levels = (nodes s.levels).filter (¬ IsDue info.deadline ·) := by
  obtain ⟨hrest, hnotDue⟩ := levelsOk_emptied h.levels l info.slotId hle hout
  have hsplit := nodes_emptied s.levels l info.slotId
  have hwork : (l + 1) * ((s.levels l).slots info.slotId).length
      + work (Function.update s.levels l (emptied (s.levels l) info.slotId)) = work s.levels := by
    have hsum := work_update s.levels l (emptied (s.levels l) info.slotId)
    rw [wheelNodes_emptied (s.levels l) info.slotId, Multiset.card_add, Multiset.coe_card,
      Nat.mul_add] at hsum
    omega
  obtain ⟨levels, p, hrun, hok, hp, hn, hw⟩ := processEntries_spec hpool (t := info.deadline)
    (Nat.le_of_lt l.isLt) ((s.levels l).slots info.slotId)
    { s with levels := Function.update s.levels l (emptied (s.levels l) info.slotId) } hrest
    (fun e he => level_lt_of_not_due (hin e he)) (by rw [← hsplit]; exact h.pool)
  refine ⟨levels, p, (((s.levels l).slots info.slotId).filter (IsDue info.deadline ·)).map
    TimeEntry.data, ?_, hok, hp, ?_, ?_, ?_⟩
  · have hlt : info.level < maxLevels := hlevel ▸ l.isLt
    have hl : (⟨info.level, hlt⟩ : Fin maxLevels) = l := Fin.ext hlevel
    unfold processExpired
    rw [dif_pos hlt, hl, aquireSlot_eq (hlevel.trans (h.levels l).level_eq.symm)]
    exact hrun
  · -- Each node of the slot counted `l + 1` before and counts at most `l` now.
    have hlen : 0 < ((s.levels l).slots info.slotId).length := List.length_pos_of_ne_nil hne
    rw [Nat.add_mul, Nat.one_mul] at hwork
    simp only at hw
    omega
  · -- No node outside the slot is due, so the due nodes are those of the slot.
    rw [hsplit, Multiset.filter_add, Multiset.filter_eq_nil.mpr hnotDue, add_zero,
      Multiset.filter_coe, Multiset.map_coe]
  · rw [hn, hsplit, Multiset.filter_add, Multiset.filter_eq_self.mpr hnotDue, Multiset.filter_coe]

/-- The last processed time may move to any point before all the blocks in use. -/
theorem levelsOk_advance {last : UInt64} {levels : Fin maxLevels → TimeWheel W}
    (h : LevelsOk last levels) (hle : last ≤ now)
    (hbefore : ∀ (l : Fin maxLevels) i, ∀ e ∈ (levels l).slots i,
      now.toNat < blockStart 64 l e.data.expireAt.toNat) : LevelsOk now levels := fun l =>
  { level_eq := (h l).level_eq, occupied := (h l).occupied, slot := (h l).slot,
    filed := fun i e he => ((h l).filed i e he).advance_of_lt (by decide)
      (UInt64.le_iff_toNat_le.mp hle) (hbefore l i e he) }

theorem setLastCheckTime_eq (h : s.lastCheckTime ≤ now) :
    s.setLastCheckTime now = .ok { s with lastCheckTime := now } := by
  unfold setLastCheckTime
  rw [if_pos h]

/-- One iteration of the loop. Either it takes a slot, wakes all nodes that are due at the
deadline of the slot and goes on with less work, or no node is due and it ends at `now`. -/
theorem processStep_spec (hpool : pool.Lawful live) (h : DriverOk live s)
    (hnow : s.lastCheckTime ≤ now) :
    (∃ s' woken, s.processStep pool now = .ok (s', woken, true) ∧ DriverOk live s' ∧
      s'.lastCheckTime ≤ now ∧ work s'.levels < work s.levels ∧
      (woken : Multiset (TimeoutData W))
        = ((nodes s.levels).filter (IsDue s'.lastCheckTime)).map TimeEntry.data ∧
      (∀ e ∈ nodes s.levels, s'.lastCheckTime ≤ e.data.expireAt) ∧
      nodes s'.levels = (nodes s.levels).filter (¬ IsDue s'.lastCheckTime ·)) ∨
    (s.processStep pool now = .ok ({ s with lastCheckTime := now }, [], false) ∧
      DriverOk live { s with lastCheckTime := now } ∧ ∀ e ∈ nodes s.levels, ¬ IsDue now e) := by
  -- Both ways out of the loop find every block in use still ahead of `now`.
  have hend : (∀ (l : Fin maxLevels) i, ∀ e ∈ (s.levels l).slots i,
      now.toNat < blockStart 64 l e.data.expireAt.toNat) →
      DriverOk live { s with lastCheckTime := now } ∧ ∀ e ∈ nodes s.levels, ¬ IsDue now e := by
    intro hbefore
    refine ⟨⟨levelsOk_advance h.levels hnow hbefore, h.pool⟩, fun e he hdue => ?_⟩
    obtain ⟨l, i, hmem⟩ := mem_nodes.mp he
    exact not_isDue_of_lt_blockStart (hbefore l i e hmem) hdue
  rcases findNextExpiring_spec h.levels with
    ⟨hzero, hnone⟩ | ⟨l, info, hsome, hlevel, hne, hle, hin, hout⟩
  · right
    refine ⟨?_, hend fun l i e he => ?_⟩
    · unfold processStep
      rw [hnone, setLastCheckTime_eq hnow]
      rfl
    · have hmem := mem_nodes.mpr ⟨l, i, he⟩
      rw [hzero] at hmem
      exact absurd hmem (Multiset.notMem_zero e)
  · have hbegin : ∀ (l' : Fin maxLevels) i, ∀ e ∈ (s.levels l').slots i,
        info.deadline.toNat ≤ blockStart 64 l' e.data.expireAt.toNat := by
      intro l' i e he
      by_cases hpos : (l', i) = (l, info.slotId)
      · cases hpos
        exact Nat.le_of_eq (hin e he)
      · exact Nat.le_of_lt (hout l' i hpos e he)
    by_cases hdue : info.deadline ≤ now
    · left
      obtain ⟨levels, p, woken, hrun, hok, hp, hwork, hwoken, hn⟩ :=
        processExpired_spec hpool h hlevel hne hle hin hout
      refine ⟨{ s with levels, pool := p, lastCheckTime := info.deadline }, woken, ?_, ⟨hok, hp⟩,
        hdue, hwork, hwoken, fun e he => ?_, hn⟩
      · unfold processStep
        rw [hsome]
        show (if _ then _ else _) = _
        rw [if_pos hdue, hrun]
        show (do let s'' ← Inner.setLastCheckTime _ _; _) = _
        rw [setLastCheckTime_eq (s := { s with levels, pool := p }) hle]
        rfl
      · obtain ⟨l', i, hmem⟩ := mem_nodes.mp he
        exact UInt64.le_iff_toNat_le.mpr
          (Nat.le_trans (hbegin l' i e hmem) (blockStart_le 64 l' _))
    · right
      refine ⟨?_, hend fun l' i e he => ?_⟩
      · unfold processStep
        rw [hsome]
        show (if _ then _ else _) = _
        rw [if_neg hdue, setLastCheckTime_eq hnow]
        rfl
      · have hlt := UInt64.lt_iff_toNat_lt.mp (UInt64.not_le.mp hdue)
        exact Nat.lt_of_lt_of_le hlt (hbegin l' i e he)

/-! ### The whole loop -/

/-- What is due by `now`, split at an earlier time. -/
theorem filter_due_split (h : t ≤ now) (m : Multiset (TimeEntry W)) :
    m.filter (IsDue now) = m.filter (IsDue t) + (m.filter (¬ IsDue t ·)).filter (IsDue now) := by
  rw [← Multiset.filter_add_not (IsDue t) (m.filter (IsDue now)), Multiset.filter_filter,
    Multiset.filter_filter, Multiset.filter_filter]
  congr 1
  · refine Multiset.filter_congr fun e _ => ?_
    exact ⟨And.left, fun hdue => ⟨hdue, UInt64.le_trans hdue h⟩⟩
  · exact Multiset.filter_congr fun e _ => and_comm

/-- Timers that all expire at `t`, followed by sorted ones that do not expire before `t`. -/
theorem pairwise_append_expireAt {later : List (TimeoutData W)}
    (hwoken : ∀ d ∈ woken, d.expireAt = t) (hlater : ∀ d ∈ later, t ≤ d.expireAt)
    (hsorted : later.Pairwise (·.expireAt ≤ ·.expireAt)) :
    (woken ++ later).Pairwise (·.expireAt ≤ ·.expireAt) := by
  rw [List.pairwise_append]
  refine ⟨List.pairwise_of_forall_mem_list fun a ha b hb => ?_, hsorted, fun a ha b hb => ?_⟩
  · rw [hwoken a ha, hwoken b hb]
    exact UInt64.le_refl t
  · rw [hwoken a ha]
    exact hlater b hb

/-- The loop, with fuel for the work left: it ends without a panic, wakes what is due by `now`
in the order of the deadlines, and keeps the rest. -/
theorem processLoop_spec (hpool : pool.Lawful live) (fuel : Nat) (s : Time.Inner P W)
    (h : DriverOk live s) (hnow : s.lastCheckTime ≤ now) (hfuel : work s.levels < fuel) :
    ∃ s' woken, Inner.processLoop pool now fuel s = some (.ok (s', woken)) ∧ DriverOk live s' ∧
      s'.lastCheckTime = now ∧
      (woken : Multiset (TimeoutData W))
        = ((nodes s.levels).filter (IsDue now)).map TimeEntry.data ∧
      woken.Pairwise (·.expireAt ≤ ·.expireAt) ∧
      nodes s'.levels = (nodes s.levels).filter (¬ IsDue now ·) := by
  -- Every iteration that goes on leaves less work, so fuel above the work is enough.
  induction fuel generalizing s with
  | zero => exact absurd hfuel (Nat.not_lt_zero _)
  | succ fuel ih =>
      unfold processLoop
      rcases processStep_spec hpool h hnow with
        ⟨s₁, woken₁, hstep, hok₁, hle, hwork, hwoken₁, hall, hn₁⟩ | ⟨hstep, hok, hnone⟩
      · obtain ⟨s', later, hloop, hok, hlast, hlater, hsorted, hn⟩ :=
          ih s₁ hok₁ hle (by omega)
        refine ⟨s', woken₁ ++ later, ?_, hok, hlast, ?_, ?_, ?_⟩
        · rw [hstep]
          show (Inner.processLoop pool now fuel s₁).map _ = _
          rw [hloop]
          rfl
        · rw [← Multiset.coe_add, hwoken₁, hlater, hn₁,
            filter_due_split hle (nodes s.levels), Multiset.map_add]
        · -- What this iteration wakes expires at its deadline, what comes later after it.
          refine pairwise_append_expireAt (t := s₁.lastCheckTime) (fun d hd => ?_) (fun d hd => ?_)
            hsorted
          · rw [← Multiset.mem_coe, hwoken₁] at hd
            obtain ⟨e, he, rfl⟩ := Multiset.mem_map.mp hd
            obtain ⟨hmem, hdue⟩ := Multiset.mem_filter.mp he
            exact UInt64.le_antisymm hdue (hall e hmem)
          · rw [← Multiset.mem_coe, hlater, hn₁] at hd
            obtain ⟨e, he, rfl⟩ := Multiset.mem_map.mp hd
            exact hall e (Multiset.mem_filter.mp (Multiset.mem_filter.mp he).1).1
        · rw [hn, hn₁, Multiset.filter_filter]
          refine Multiset.filter_congr fun e _ => ?_
          exact ⟨And.left, fun hdue => ⟨hdue, fun hdue₁ => hdue (UInt64.le_trans hdue₁ hle)⟩⟩
      · refine ⟨{ s with lastCheckTime := now }, [], ?_, hok, rfl, ?_, List.Pairwise.nil, ?_⟩
        · rw [hstep]
        · rw [Multiset.filter_eq_nil.mpr hnone]
          rfl
        · exact (Multiset.filter_eq_self.mpr hnone).symm

/-- The result of the loop does not depend on the fuel. -/
theorem processLoop_unique (fuel fuel' : Nat) (s : Time.Inner P W)
    {r r' : Except Panic (Time.Inner P W × List (TimeoutData W))}
    (h : Inner.processLoop pool now fuel s = some r)
    (h' : Inner.processLoop pool now fuel' s = some r') : r = r' := by
  induction fuel generalizing fuel' s r r' with
  | zero => cases h
  | succ fuel ih =>
      cases fuel' with
      | zero => cases h'
      | succ fuel' =>
          unfold processLoop at h h'
          cases hstep : s.processStep pool now with
          | error e =>
              rw [hstep] at h h'
              exact (Option.some.inj h).symm.trans (Option.some.inj h')
          | ok res =>
              obtain ⟨s₁, woken, goOn⟩ := res
              rw [hstep] at h h'
              cases goOn with
              | false => exact (Option.some.inj h).symm.trans (Option.some.inj h')
              | true =>
                  obtain ⟨q, hq, rfl⟩ := Option.map_eq_some_iff.mp h
                  obtain ⟨q', hq', rfl⟩ := Option.map_eq_some_iff.mp h'
                  rw [ih fuel' s₁ hq hq']

/-- A call of `process_internal` at a time that is not in the past: it ends with one result,
and that result is not a panic. -/
theorem processInternal_spec (hpool : pool.Lawful live) (h : DriverOk live s)
    (hnow : s.lastCheckTime ≤ now) :
    ∃ s' woken, (∀ r, s.ProcessInternal pool now r ↔ r = .ok (s', woken)) ∧ DriverOk live s' ∧
      s'.lastCheckTime = now ∧
      (woken : Multiset (TimeoutData W))
        = ((nodes s.levels).filter (IsDue now)).map TimeEntry.data ∧
      woken.Pairwise (·.expireAt ≤ ·.expireAt) ∧
      nodes s'.levels = (nodes s.levels).filter (¬ IsDue now ·) := by
  obtain ⟨s', woken, hloop, hrest⟩ :=
    processLoop_spec hpool (work s.levels + 1) s h hnow (Nat.lt_succ_self _)
  have hinternal : ∀ fuel, s.processInternal pool fuel now = Inner.processLoop pool now fuel s := by
    intro fuel
    unfold processInternal
    rw [if_pos hnow]
  refine ⟨s', woken, fun r => ⟨fun ⟨fuel, hr⟩ => ?_, fun hr => ⟨work s.levels + 1, ?_⟩⟩, hrest⟩
  · rw [hinternal] at hr
    exact processLoop_unique _ _ s hr hloop
  · rw [hinternal, hloop, hr]

/-! ### Registration -/

/-- The timers that the driver still has to wake. -/
def pending (s : Time.Inner P W) : Multiset (TimeoutData W) := (nodes s.levels).map TimeEntry.data

/-- A registration whose deadline is not in the past and fits the five levels: it takes a
fresh node and adds its timer, or it fails for want of a node and changes nothing. -/
theorem registerTimeoutInternal_spec (hpool : pool.Lawful live) (h : DriverOk live s)
    {expireAt : UInt64} (waker : W) (hle : s.lastCheckTime ≤ expireAt)
    (hfits : s.lastCheckTime >>> 30 = expireAt >>> 30) : pool.allocate s.pool = none ∧
      s.registerTimeoutInternal pool expireAt waker = .ok (s, .error .noSpaceLeft) ∨
    ∃ s', s.registerTimeoutInternal pool expireAt waker = .ok (s', .ok ()) ∧ DriverOk live s' ∧
      s'.lastCheckTime = s.lastCheckTime ∧ pending s' = ⟨waker, expireAt⟩ ::ₘ pending s := by
  unfold registerTimeoutInternal
  cases halloc : pool.allocate s.pool with
  | none => exact Or.inl ⟨rfl, rfl⟩
  | some res =>
      obtain ⟨addr, p⟩ := res
      right
      obtain ⟨levels, hreg, hok, hn, -⟩ := registerAt_spec (s := { s with pool := p })
        h.levels ⟨addr, waker, expireAt⟩ hle
          ((computeLevelForTimer_lt_iff_shiftRight _ _).mpr hfits)
      refine ⟨{ s with pool := p, levels }, ?_, ⟨hok, ?_⟩, rfl, ?_⟩
      · dsimp only
        rw [hreg]
        rfl
      · show PoolOk live p (nodes levels)
        rw [hn]
        exact h.pool.allocate hpool halloc _
      · unfold pending
        rw [hn, Multiset.map_cons]

/-! ### The start of the clock does not change -/

theorem exists_of_bind_eq_ok {E A B : Type} {x : Except E A} {f : A → Except E B} {b : B}
    (h : (x >>= f) = .ok b) : ∃ a, x = .ok a ∧ f a = .ok b := by
  cases x with
  | error e => cases h
  | ok a => exact ⟨a, rfl, h⟩

theorem registerAt_startTime {level : Nat} (h : s.registerAt level e = .ok s') :
    s'.startTime = s.startTime := by
  unfold registerAt at h
  split at h <;> cases h
  rfl

theorem setLastCheckTime_startTime (h : s.setLastCheckTime now = .ok s') :
    s'.startTime = s.startTime := by
  unfold setLastCheckTime at h
  split at h <;> cases h
  rfl

theorem processEntries_startTime (es : List (TimeEntry W))
    (h : Inner.processEntries pool deadline es s = .ok (s', woken)) :
    s'.startTime = s.startTime := by
  induction es generalizing s woken with
  | nil =>
      cases h
      rfl
  | cons e es ih =>
      unfold processEntries at h
      split at h
      · obtain ⟨r, hrest, hr⟩ := exists_of_bind_eq_ok h
        cases hr
        have hsame := ih hrest
        exact hsame
      · obtain ⟨s₁, hreg, hrest⟩ := exists_of_bind_eq_ok h
        exact (ih hrest).trans (registerAt_startTime hreg)

theorem processExpired_startTime {info : ExpireInfo}
    (h : s.processExpired pool info = .ok (s', woken)) : s'.startTime = s.startTime := by
  unfold processExpired at h
  split at h
  · obtain ⟨acquired, -, hrest⟩ := exists_of_bind_eq_ok h
    have hsame := processEntries_startTime _ hrest
    exact hsame
  · cases h

theorem processStep_startTime {goOn : Bool} (h : s.processStep pool now = .ok (s', woken, goOn)) :
    s'.startTime = s.startTime := by
  obtain ⟨found, -, h⟩ := exists_of_bind_eq_ok h
  split at h
  · split at h
    · obtain ⟨expired, hexpired, h⟩ := exists_of_bind_eq_ok h
      obtain ⟨s₁, hset, h⟩ := exists_of_bind_eq_ok h
      cases h
      exact (setLastCheckTime_startTime hset).trans (processExpired_startTime hexpired)
    · obtain ⟨s₁, hset, h⟩ := exists_of_bind_eq_ok h
      cases h
      exact setLastCheckTime_startTime hset
  · obtain ⟨s₁, hset, h⟩ := exists_of_bind_eq_ok h
    cases h
    exact setLastCheckTime_startTime hset

theorem processLoop_startTime (fuel : Nat)
    (h : Inner.processLoop pool now fuel s = some (.ok (s', woken))) :
    s'.startTime = s.startTime := by
  induction fuel generalizing s woken with
  | zero => cases h
  | succ fuel ih =>
      unfold processLoop at h
      split at h
      · cases h
      · rename_i hstep
        cases h
        exact processStep_startTime hstep
      · rename_i s₁ _ hstep
        obtain ⟨r, hrest, hr⟩ := Option.map_eq_some_iff.mp h
        cases r with
        | error e => cases hr
        | ok r =>
            cases hr
            exact (ih hrest).trans (processStep_startTime hstep)

/-- A registration that returns: it has failed and changed nothing, or the five levels can hold its
deadline. -/
theorem registerTimeoutInternal_cases {expireAt : UInt64} {r : Except CommonErrors Unit}
    (h : s.registerTimeoutInternal pool expireAt waker = .ok (s', r)) :
    s' = s ∧ r = .error .noSpaceLeft ∨
      r = .ok () ∧ s'.startTime = s.startTime ∧ s.lastCheckTime >>> 30 = expireAt >>> 30 := by
  unfold registerTimeoutInternal at h
  split at h
  · cases h
    exact Or.inl ⟨rfl, rfl⟩
  · obtain ⟨s₁, hreg, hr⟩ := exists_of_bind_eq_ok h
    cases hr
    have hstart := registerAt_startTime hreg
    refine Or.inr ⟨rfl, hstart, ?_⟩
    unfold registerAt at hreg
    split at hreg
    · rename_i hlevel
      exact (computeLevelForTimer_lt_iff_shiftRight _ _).mp hlevel
    · cases hreg

/-- A call of `register_timeout` that returns: it has failed and changed nothing, or it has added
its timer. -/
theorem registerTimeout_cases (hpool : pool.Lawful live) (hok : DriverOk live s)
    {expireAt : Instant} {r : Except CommonErrors Unit}
    (h : s.registerTimeout pool expireAt waker = .ok (s', r)) : s' = s ∧ r ≠ .ok () ∨
      r = .ok () ∧ DriverOk live s' ∧ s'.startTime = s.startTime ∧
        s'.lastCheckTime = s.lastCheckTime ∧
        pending s' = ⟨waker, s.instantIntoU64 expireAt⟩ ::ₘ pending s := by
  unfold registerTimeout at h
  split at h
  · split at h
    · cases h
      exact Or.inl ⟨rfl, by simp⟩
    · rename_i haccept
      rcases registerTimeoutInternal_cases h with ⟨rfl, rfl⟩ | ⟨rfl, hstart, hfits⟩
      · exact Or.inl ⟨rfl, by simp⟩
      · rcases registerTimeoutInternal_spec hpool hok waker (le_of_acceptsTimeout haccept) hfits with
          ⟨-, hfull⟩ | ⟨s₁, hreg, hok', hlast, hadd⟩
        · rw [hfull] at h
          cases h
        · rw [hreg] at h
          cases h
          exact Or.inr ⟨rfl, hok', hstart, hlast, hadd⟩
  · cases h

/-- Only a deadline before the last processed time is answered with `AlreadyDone`. -/
theorem lt_of_alreadyDone {expireAt : Instant}
    (h : s.registerTimeout pool expireAt waker = .ok (s', .error .alreadyDone)) :
    s.instantIntoU64 expireAt < s.lastCheckTime := by
  unfold registerTimeout at h
  split at h
  · split at h
    · rename_i haccept
      cases h
      rcases acceptsTimeout_cases s (s.instantIntoU64 expireAt) with
        ⟨-, hpast⟩ | ⟨hno, -⟩ | ⟨hno, -⟩
      · exact hpast
      · cases haccept.symm.trans hno
      · cases haccept.symm.trans hno
    · rcases registerTimeoutInternal_cases h with ⟨-, hr⟩ | ⟨hr, -⟩ <;> cases hr
  · cases h

/-! ### Runs -/

/-- A run of the driver from its start, with the timers registered and the timers woken so
far. A registration is one that the five levels can hold, and time does not go back. -/
inductive Run (pool : NodePool P) (p : P) (startTime : Instant) :
    Time.Inner P W → List (TimeoutData W) → List (TimeoutData W) → Prop
  | start : Run pool p startTime (Inner.new p startTime) [] []
  | registered {s s' : Time.Inner P W} {reg woken : List (TimeoutData W)} (expireAt : UInt64)
      (waker : W) (run : Run pool p startTime s reg woken) (hle : s.lastCheckTime ≤ expireAt)
      (hfits : s.lastCheckTime >>> 30 = expireAt >>> 30)
      (hcall : s.registerTimeoutInternal pool expireAt waker = .ok (s', .ok ())) :
      Run pool p startTime s' (reg ++ [⟨waker, expireAt⟩]) woken
  | rejected {s s' : Time.Inner P W} {reg woken : List (TimeoutData W)} (expireAt : UInt64)
      (waker : W) (e : CommonErrors) (run : Run pool p startTime s reg woken)
      (hle : s.lastCheckTime ≤ expireAt)
      (hfits : s.lastCheckTime >>> 30 = expireAt >>> 30)
      (hcall : s.registerTimeoutInternal pool expireAt waker = .ok (s', .error e)) :
      Run pool p startTime s' reg woken
  | processed {s s' : Time.Inner P W} {reg woken now_woken : List (TimeoutData W)} (now : UInt64)
      (run : Run pool p startTime s reg woken) (hnow : s.lastCheckTime ≤ now)
      (hcall : s.ProcessInternal pool now (.ok (s', now_woken))) :
      Run pool p startTime s' reg (woken ++ now_woken)

/-- Every state of a run satisfies the invariant, and the timers registered are those woken
and those pending. -/
theorem Run.ok (hpool : pool.Lawful live) {p : P} {startTime : Instant} {reg : List (TimeoutData W)}
    (run : Run pool p startTime s reg woken) :
    DriverOk live s ∧ (reg : Multiset (TimeoutData W)) = woken + pending s := by
  induction run with
  | start =>
      refine ⟨driverOk_new live p startTime, ?_⟩
      show (0 : Multiset (TimeoutData W)) = 0 + (nodes _).map _
      rw [show (new p startTime : Time.Inner P W).levels
          = fun l : Fin maxLevels => TimeWheel.new l from rfl,
        nodes_new, Multiset.map_zero, add_zero]
  | registered expireAt waker run hle hfits hcall ih =>
      obtain ⟨hok, hsum⟩ := ih
      rcases registerTimeoutInternal_spec hpool hok waker hle hfits with
        ⟨-, hfull⟩ | ⟨s', hreg, hok', -, hp⟩
      · rw [hfull] at hcall
        cases hcall
      · rw [hreg] at hcall
        cases hcall
        refine ⟨hok', ?_⟩
        rw [← Multiset.coe_add, hsum, hp, Multiset.coe_singleton, add_assoc,
          ← Multiset.singleton_add, add_comm (pending _)]
  | rejected expireAt waker e run hle hfits hcall ih =>
      rcases registerTimeoutInternal_spec hpool ih.1 waker hle hfits with
        ⟨-, hfull⟩ | ⟨s', hreg, -⟩
      · rw [hfull] at hcall
        cases hcall
        exact ih
      · rw [hreg] at hcall
        cases hcall
  | processed now run hnow hcall ih =>
      obtain ⟨hok, hsum⟩ := ih
      obtain ⟨s', woken', hres, hok', -, hwoken, -, hn⟩ := processInternal_spec hpool hok hnow
      cases (hres _).mp hcall
      refine ⟨hok', ?_⟩
      unfold pending at hsum ⊢
      rw [← Multiset.coe_add, hsum, hn, hwoken, add_assoc, ← Multiset.map_add,
        Multiset.filter_add_not]

/-- In every state of every run of the driver:

* the timers registered so far are, each counted once, those woken and those pending, and the
  nodes in the wheel have distinct addresses;
* a registration that the five levels can hold never panics; it adds its timer, or it fails
  for want of a node and changes nothing;
* a call `process_internal(now)` ends, with one possible result and no panic. It wakes exactly
  the pending nodes with `expire_at <= now`, in non-decreasing order of `expire_at`, and the
  nodes left are exactly the others, unchanged. -/
theorem processInternal_wakes_due (hpool : pool.Lawful live) {p : P} {startTime : Instant}
    {s : Time.Inner P W} {reg woken : List (TimeoutData W)}
    (run : Run pool p startTime s reg woken) :
    (reg : Multiset (TimeoutData W)) = woken + pending s ∧
    ((nodes s.levels).map TimeEntry.addr).Nodup ∧
    (∀ expireAt waker, s.lastCheckTime ≤ expireAt → s.lastCheckTime >>> 30 = expireAt >>> 30 →
      (s.registerTimeoutInternal pool expireAt waker = .ok (s, .error .noSpaceLeft)) ∨
      ∃ s', s.registerTimeoutInternal pool expireAt waker = .ok (s', .ok ()) ∧
        pending s' = ⟨waker, expireAt⟩ ::ₘ pending s) ∧
    (∀ now, s.lastCheckTime ≤ now → ∃ s' now_woken,
      (∀ r, s.ProcessInternal pool now r ↔ r = .ok (s', now_woken)) ∧
      (now_woken : Multiset (TimeoutData W))
        = ((nodes s.levels).filter fun e => e.data.expireAt ≤ now).map TimeEntry.data ∧
      now_woken.Pairwise (·.expireAt ≤ ·.expireAt) ∧
      nodes s'.levels = (nodes s.levels).filter fun e => ¬ e.data.expireAt ≤ now) := by
  obtain ⟨hok, hsum⟩ := run.ok hpool
  refine ⟨hsum, hok.pool.distinct, fun expireAt waker hle hfits => ?_, fun now hnow => ?_⟩
  · rcases registerTimeoutInternal_spec hpool hok waker hle hfits with
      ⟨-, hfull⟩ | ⟨s', hreg, -, -, hp⟩
    · exact Or.inl hfull
    · exact Or.inr ⟨s', hreg, hp⟩
  · obtain ⟨s', woken', hres, -, -, hwoken, hsorted, hn⟩ := processInternal_spec hpool hok hnow
    exact ⟨s', woken', hres, hwoken, hsorted, hn⟩

/-- A timer of 100 ms on a fresh driver with one node is woken by processing at 100 ms. -/
theorem processInternal_wakes_hundred :
    ∃ s s' : Time.Inner (List NodeAddr) Unit,
      (Inner.new [] 0).registerTimeoutInternal (fixedPool 1) 100 () = .ok (s, .ok ()) ∧
      s.ProcessInternal (fixedPool 1) 100 (.ok (s', [⟨(), 100⟩])) ∧ nodes s'.levels = 0 := by
  obtain ⟨s, hcall⟩ : ∃ s : Time.Inner (List NodeAddr) Unit,
      (Inner.new [] 0).registerTimeoutInternal (fixedPool 1) 100 () = .ok (s, .ok ()) := ⟨_, rfl⟩
  have hlast : s.lastCheckTime = 0 := by
    cases hcall
    rfl
  have run : Run (fixedPool 1) [] 0 s [⟨(), 100⟩] [] :=
    Run.registered 100 () Run.start (by decide) (by decide) hcall
  obtain ⟨hsum, -, -, hprocess⟩ := processInternal_wakes_due (fixedPool_lawful 1) run
  obtain ⟨s', woken, hres, hwoken, -, hn⟩ := hprocess 100 (by rw [hlast]; decide)
  rw [Multiset.coe_singleton, Multiset.coe_nil, zero_add] at hsum
  -- The one pending timer is due, so all nodes are.
  have hdue : ∀ e ∈ nodes s.levels, e.data.expireAt ≤ 100 := by
    intro e he
    have hmem : e.data ∈ pending s := Multiset.mem_map_of_mem _ he
    rw [← hsum, Multiset.mem_singleton] at hmem
    rw [hmem]
    decide
  rw [Multiset.filter_eq_self.mpr hdue] at hwoken
  rw [Multiset.filter_eq_nil.mpr fun e he hnot => hnot (hdue e he)] at hn
  have hone : woken = [⟨(), 100⟩] := Multiset.coe_eq_singleton.mp (hwoken.trans hsum.symm)
  exact ⟨s, s', hcall, (hres _).mpr (by rw [hone]), hn⟩

end Kyron.Proofs.Time
