import Kyron.Time.Timers
import Kyron.Proofs.Time.Process

/-!
# `Kyron.Proofs.Time.Timers`: the wheel computes the view

`Refines s t` says that the driver state `s` holds exactly the deadlines of the view `t` and was
processed up to the same time. Each operation of the driver keeps the relation and answers what
the view answers.

* `registerTimeout_refines`: a registration that the five levels can hold. The wheel panics on
  one that they cannot hold, and the view does not know the levels.
* `processInternal_refines`: processing.
* `nextProcessTime_refines`: the earliest deadline. The slot that expires next holds it:
  `le_of_next_slot`.

`nextProcessTime_exact` says the same of the states of a run, without the view.
-/

set_option autoImplicit false

namespace Kyron.Proofs.Time

open Kyron.Lib
open Kyron.Time

variable {P W : Type} {pool : NodePool P} {live : P → NodeAddr → Prop}

/-- The deadlines of the pending timers, in milliseconds. -/
def deadlines (s : Time.Inner P W) : Multiset Nat := (pending s).map fun d => d.expireAt.toNat

/-- The driver holds the timers of the view. -/
structure Refines (s : Time.Inner P W) (t : Timers) : Prop where
  deadlines_eq : deadlines s = t.pending
  lastCheckTime_eq : s.lastCheckTime.toNat = t.lastCheckTime

theorem refines_new (p : P) (startTime : Instant) :
    Refines (Inner.new p startTime : Time.Inner P W) Timers.new where
  deadlines_eq := by
    show Multiset.map _ (Multiset.map _ (nodes fun l : Fin maxLevels => TimeWheel.new l)) = _
    rw [nodes_new]
    rfl
  lastCheckTime_eq := rfl

/-! ### Processing and registering -/

variable {s : Time.Inner P W} {t : Timers}

theorem processInternal_refines (hpool : pool.Lawful live) (h : DriverOk live s) (hr : Refines s t)
    {now : UInt64} (hnow : s.lastCheckTime ≤ now) :
    ∃ s' woken, (∀ r, s.ProcessInternal pool now r ↔ r = .ok (s', woken)) ∧ DriverOk live s' ∧
      Refines s' (t.processTimeouts now.toNat) := by
  obtain ⟨s', woken, hcall, hok, hlast, -, -, hnodes⟩ := processInternal_spec hpool h hnow
  refine ⟨s', woken, hcall, hok, ?_, ?_⟩
  · have hfilter : deadlines s' = (deadlines s).filter (now.toNat < ·) := by
      unfold deadlines pending
      rw [hnodes, Multiset.map_map, Multiset.map_map, Multiset.filter_map]
      congr 1
      refine Multiset.filter_congr fun e _ => ?_
      show ¬ e.data.expireAt ≤ now ↔ now.toNat < e.data.expireAt.toNat
      rw [UInt64.le_iff_toNat_le, Nat.not_le]
    rw [hfilter, hr.deadlines_eq, Multiset.filter_coe]
    rfl
  · rw [hlast]
    rfl

/-- The two checks on the deadline are those of the view. -/
theorem registerTimeout_of_acceptsTimeout (hr : Refines s t) (expireAt : UInt64) (hasNode : Bool) :
    t.registerTimeout expireAt.toNat hasNode = (s.acceptsTimeout expireAt).bind fun _ =>
      if hasNode then .ok { t with pending := expireAt.toNat :: t.pending }
      else .error .noSpaceLeft := by
  unfold Timers.registerTimeout Inner.acceptsTimeout
  rw [← hr.lastCheckTime_eq]
  by_cases hpast : expireAt < s.lastCheckTime
  · rw [if_pos hpast, if_pos (UInt64.lt_iff_toNat_lt.mp hpast)]
    rfl
  · have hle : s.lastCheckTime ≤ expireAt := UInt64.not_lt.mp hpast
    rw [if_neg hpast, if_neg fun hlt => hpast (UInt64.lt_iff_toNat_lt.mpr hlt),
      ← UInt64.toNat_sub_of_le _ _ hle]
    by_cases hfar : maxTimeoutTime < expireAt - s.lastCheckTime
    · rw [if_pos hfar, if_pos (UInt64.lt_iff_toNat_lt.mp hfar)]
      rfl
    · rw [if_neg hfar, if_neg fun hlt => hfar (UInt64.lt_iff_toNat_lt.mpr hlt)]
      rfl

/-- A registration that the five levels can hold answers what the view answers, given whether
the pool has a node. -/
theorem registerTimeout_refines (hpool : pool.Lawful live) (h : DriverOk live s) (hr : Refines s t)
    {expireAt : Instant} (waker : W) (hstart : s.startTime ≤ expireAt)
    (hfits : s.lastCheckTime >>> 30 = s.instantIntoU64 expireAt >>> 30) :
    ∃ hasNode s', DriverOk live s' ∧
      s.registerTimeout pool expireAt waker = .ok (s',
        (t.registerTimeout (s.instantIntoU64 expireAt).toNat hasNode).map fun _ => ()) ∧
      Refines s'
        ((t.registerTimeout (s.instantIntoU64 expireAt).toNat hasNode).toOption.getD t) := by
  simp only [registerTimeout_of_acceptsTimeout hr]
  unfold Inner.registerTimeout
  rw [if_pos hstart]
  cases haccept : s.acceptsTimeout (s.instantIntoU64 expireAt) with
  | error err => exact ⟨true, s, h, rfl, hr⟩
  | ok _ =>
      rcases registerTimeoutInternal_spec hpool h waker (le_of_acceptsTimeout haccept) hfits with
        ⟨-, hfull⟩ | ⟨s', hcall, hok, hlast, hpending⟩
      · exact ⟨false, s, h, hfull, hr⟩
      · refine ⟨true, s', hok, hcall, ?_, ?_⟩
        · show deadlines s' = _
          unfold deadlines
          rw [hpending, Multiset.map_cons]
          exact congrArg (_ ::ₘ ·) hr.deadlines_eq
        · rw [hlast]
          exact hr.lastCheckTime_eq

/-! ### The earliest deadline -/

/-- The walk over a chain, from any bound: the answer is the bound or one of the deadlines, and
none of them is lower. -/
theorem foldl_lowest (es : List (TimeEntry W)) (bound : UInt64) :
    let lowest := es.foldl (fun lowest e => min e.data.expireAt lowest) bound
    (lowest = bound ∨ ∃ e ∈ es, lowest = e.data.expireAt) ∧ lowest ≤ bound ∧
      ∀ e ∈ es, lowest ≤ e.data.expireAt := by
  induction es generalizing bound with
  | nil => exact ⟨Or.inl rfl, UInt64.le_refl bound, fun _ he => nomatch he⟩
  | cons e es ih =>
      obtain ⟨hfrom, hbound, hall⟩ := ih (min e.data.expireAt bound)
      refine ⟨?_, UInt64.le_trans hbound Std.min_le_right, fun e' he' => ?_⟩
      · rcases hfrom with hmin | ⟨e', he', heq⟩
        · rcases Std.min_eq_or (a := e.data.expireAt) (b := bound) with hleft | hright
          · exact Or.inr ⟨e, List.mem_cons_self, hmin.trans hleft⟩
          · exact Or.inl (hmin.trans hright)
        · exact Or.inr ⟨e', List.mem_cons_of_mem e he', heq⟩
      · rcases List.mem_cons.mp he' with rfl | hmem
        · exact UInt64.le_trans hbound Std.min_le_left
        · exact hall e' hmem

/-- Walking a slot finds its lowest deadline. -/
theorem nextExpirationInSlot_spec {w : TimeWheel W} {i : Fin 64} (hne : w.slots i ≠ []) :
    ∃ e ∈ w.slots i, w.nextExpirationInSlot i = some e.data.expireAt ∧
      ∀ e' ∈ w.slots i, e.data.expireAt ≤ e'.data.expireAt := by
  have hwalk : w.nextExpirationInSlot i = some ((w.slots i).foldl
      (fun lowest e => min e.data.expireAt lowest) (UInt64.ofNat (2 ^ 64 - 1))) := by
    unfold TimeWheel.nextExpirationInSlot
    split
    · contradiction
    · rfl
  obtain ⟨hfrom, hbound, hall⟩ := foldl_lowest (w.slots i) (UInt64.ofNat (2 ^ 64 - 1))
  rw [hwalk]
  rcases hfrom with heq | ⟨e, he, heq⟩
  · -- All deadlines are `u64::MAX` then.
    obtain ⟨e, he⟩ := List.exists_mem_of_ne_nil _ hne
    have hmax : ∀ x : UInt64, x ≤ UInt64.ofNat (2 ^ 64 - 1) := fun x => by
      rw [UInt64.le_iff_toNat_le]
      exact Nat.le_sub_one_of_lt x.toNat_lt
    have hsame := UInt64.le_antisymm (hmax e.data.expireAt) (heq ▸ hall e he)
    exact ⟨e, he, by rw [heq, hsame], fun e' he' => hsame ▸ heq ▸ hall e' he'⟩
  · exact ⟨e, he, by rw [heq], fun e' he' => heq ▸ hall e' he'⟩

/-- A node of the slot that expires next is before every node outside of that slot. -/
theorem le_of_next_slot (h : LevelsOk s.lastCheckTime s.levels) {l : Fin maxLevels} {i : Fin 64}
    {deadline : Nat}
    (hin : ∀ e ∈ (s.levels l).slots i, deadline = blockStart 64 l e.data.expireAt.toNat)
    (hout : ∀ (l' : Fin maxLevels) i', (l', i') ≠ (l, i) → ∀ e ∈ (s.levels l').slots i',
      deadline < blockStart 64 l' e.data.expireAt.toNat) {e : TimeEntry W}
    (he : e ∈ (s.levels l).slots i) {l' : Fin maxLevels} {i' : Fin 64} (hpos : (l', i') ≠ (l, i))
    {e' : TimeEntry W} (he' : e' ∈ (s.levels l').slots i') :
    e.data.expireAt.toNat ≤ e'.data.expireAt.toNat := by
  have hlt := hout l' i' hpos e' he'
  rw [hin e he] at hlt
  by_cases hl : l ≤ l'
  · exact (lt_of_blockStart_lt (by decide) hl hlt).le
  · -- A node of a lower level would begin before the slot that expires next.
    have hlower := ((h l').filed i' e' he').blockStart_lt_of_level_lt ((h l).filed i e he)
      (by decide) (Nat.not_le.mp hl)
    exact absurd hlt (Nat.not_lt.mpr hlower.le)

/-- The instant of a deadline, back in milliseconds. -/
theorem instantIntoU64_deadline (s : Time.Inner P W) (deadline : UInt64) :
    s.instantIntoU64 (s.startTime + deadline.toNat * 1000000) = deadline := by
  unfold Inner.instantIntoU64
  have hms : (s.startTime + deadline.toNat * 1000000 - s.startTime) / 1000000 = deadline.toNat := by
    rw [Nat.add_sub_cancel_left]
    exact Nat.mul_div_cancel _ (by decide)
  have hmin : min deadline.toNat (2 ^ 64 - 1) = deadline.toNat :=
    Nat.min_eq_left (Nat.le_sub_one_of_lt deadline.toNat_lt)
  rw [hms, hmin, UInt64.ofNat_toNat]

theorem mem_pending {d : TimeoutData W} :
    d ∈ pending s ↔ ∃ (l : Fin maxLevels) (i : Fin 64), ∃ e ∈ (s.levels l).slots i, e.data = d := by
  unfold pending
  simp only [Multiset.mem_map, mem_nodes]
  constructor
  · rintro ⟨e, ⟨l, i, he⟩, hd⟩
    exact ⟨l, i, e, he, hd⟩
  · rintro ⟨l, i, e, he, hd⟩
    exact ⟨e, ⟨l, i, he⟩, hd⟩

/-- `next_process_time` answers nothing when no timer is pending, and otherwise the earliest
deadline and how far it is ahead. -/
theorem nextProcessTime_spec (h : DriverOk live s) :
    (pending s = 0 ∧ s.nextProcessTime = .ok none) ∨
    ∃ d ∈ pending s, (∀ d' ∈ pending s, d.expireAt ≤ d'.expireAt) ∧
      s.lastCheckTime ≤ d.expireAt ∧
      s.nextProcessTime = .ok (some (s.startTime + d.expireAt.toNat * 1000000,
        d.expireAt - s.lastCheckTime)) := by
  unfold Inner.nextProcessTime
  rcases findNextExpiring_spec h.levels with
    ⟨hnone, hfind⟩ | ⟨l, info, hfind, hlevel, hne, -, hin, hout⟩
  · left
    refine ⟨?_, by rw [hfind]; rfl⟩
    unfold pending
    rw [hnone]
    rfl
  · right
    obtain ⟨e, he, hnext, hlow⟩ := nextExpirationInSlot_spec hne
    have hlast : s.lastCheckTime ≤ e.data.expireAt :=
      UInt64.le_iff_toNat_le.mpr ((h.levels l).filed _ e he).le
    refine ⟨e.data, mem_pending.mpr ⟨l, info.slotId, e, he, rfl⟩, ?_, hlast, ?_⟩
    · -- Within the slot found the scan takes the lowest, and every other slot comes later.
      intro d' hd'
      obtain ⟨l', i', e', he', rfl⟩ := mem_pending.mp hd'
      by_cases hpos : (l', i') = (l, info.slotId)
      · cases hpos
        exact hlow e' he'
      · exact UInt64.le_iff_toNat_le.mpr (le_of_next_slot h.levels hin hout he hpos he')
    · -- No deadline lies before the last check, so the subtraction does not underflow.
      have hlt : info.level < maxLevels := hlevel ▸ l.isLt
      have hl : (⟨info.level, hlt⟩ : Fin maxLevels) = l := Fin.ext hlevel
      rw [hfind]
      show (if h : info.level < maxLevels then _ else _) = _
      rw [dif_pos hlt, hl, hnext]
      exact if_pos hlast

/-- `next_process_time` answers the instant of the earliest deadline. -/
theorem nextProcessTime_refines (h : DriverOk live s) (hr : Refines s t) :
    ∃ next, s.nextProcessTime = .ok next ∧
      (next.map fun r => (s.instantIntoU64 r.1).toNat) = t.nextProcessTime := by
  have hmem : ∀ k, k ∈ t.pending ↔ ∃ d ∈ pending s, d.expireAt.toNat = k := by
    intro k
    rw [← Multiset.mem_coe, ← hr.deadlines_eq]
    exact Multiset.mem_map
  rcases nextProcessTime_spec h with ⟨hnone, hnext⟩ | ⟨d, hd, hlow, -, hnext⟩
  · refine ⟨none, hnext, ?_⟩
    have hempty : t.pending = [] := by
      rw [← Multiset.coe_eq_zero, ← hr.deadlines_eq]
      unfold deadlines
      rw [hnone]
      rfl
    unfold Timers.nextProcessTime
    rw [hempty]
    rfl
  · refine ⟨_, hnext, ?_⟩
    show some (s.instantIntoU64 (s.startTime + d.expireAt.toNat * 1000000)).toNat = _
    rw [instantIntoU64_deadline]
    refine (List.min?_eq_some_iff.mpr ⟨(hmem _).mpr ⟨d, hd, rfl⟩, ?_⟩).symm
    intro k hk
    obtain ⟨d', hd', rfl⟩ := (hmem k).mp hk
    exact UInt64.le_iff_toNat_le.mp (hlow d' hd')

/-- In every state of every run `next_process_time` answers nothing exactly when no timer is
pending, and otherwise the instant of the earliest pending deadline with its distance from the
last processed time. -/
theorem nextProcessTime_exact (hpool : pool.Lawful live) {p : P} {startTime : Instant}
    {s : Time.Inner P W} {reg woken : List (TimeoutData W)}
    (run : Run pool p startTime s reg woken) :
    (s.nextProcessTime = .ok none ↔ pending s = 0) ∧
    (pending s ≠ 0 → ∃ d ∈ pending s, (∀ d' ∈ pending s, d.expireAt ≤ d'.expireAt) ∧
      s.lastCheckTime ≤ d.expireAt ∧
      s.nextProcessTime = .ok (some (s.startTime + d.expireAt.toNat * 1000000,
        d.expireAt - s.lastCheckTime))) := by
  rcases nextProcessTime_spec (run.ok hpool).1 with ⟨hnone, hnext⟩ | ⟨d, hd, hlow, hlast, hnext⟩
  · exact ⟨⟨fun _ => hnone, fun _ => hnext⟩, fun hne => absurd hnone hne⟩
  · refine ⟨⟨fun heq => ?_, fun hzero => ?_⟩, fun _ => ⟨d, hd, hlow, hlast, hnext⟩⟩
    · rw [hnext] at heq
      cases heq
    · rw [hzero] at hd
      exact absurd hd (Multiset.notMem_zero d)

/-- Timers at 5000 ms and at 100 ms, at two levels: the answer is the instant of the second. -/
theorem nextProcessTime_exact_two :
    ∃ (s : Time.Inner (List NodeAddr) Unit) (reg : List (TimeoutData Unit)),
      Run (fixedPool 2) [] 7 s reg [] ∧ pending s = {⟨(), 5000⟩, ⟨(), 100⟩} ∧
      s.nextProcessTime = .ok (some (100000007, 100)) := by
  obtain ⟨s₁, s₂, hcall₁, hlast₁, hcall₂, hlast₂, hstart₂⟩ :
      ∃ s₁ s₂ : Time.Inner (List NodeAddr) Unit,
        (Inner.new [] 7).registerTimeoutInternal (fixedPool 2) 5000 () = .ok (s₁, .ok ()) ∧
        s₁.lastCheckTime = 0 ∧
        s₁.registerTimeoutInternal (fixedPool 2) 100 () = .ok (s₂, .ok ()) ∧
        s₂.lastCheckTime = 0 ∧ s₂.startTime = 7 := ⟨_, _, rfl, rfl, rfl, rfl, rfl⟩
  have run₁ : Run (fixedPool 2) [] 7 s₁ [⟨(), 5000⟩] [] :=
    Run.registered 5000 () Run.start (by decide) (by decide) hcall₁
  have run₂ : Run (fixedPool 2) [] 7 s₂ [⟨(), 5000⟩, ⟨(), 100⟩] [] :=
    Run.registered 100 () run₁ (by rw [hlast₁]; decide) (by rw [hlast₁]; decide) hcall₂
  have hpending : pending s₂ = {⟨(), 5000⟩, ⟨(), 100⟩} := by
    have hsum := (run₂.ok (fixedPool_lawful 2)).2
    rw [Multiset.coe_nil, zero_add] at hsum
    exact hsum.symm
  refine ⟨s₂, _, run₂, hpending, ?_⟩
  obtain ⟨d, hd, hlow, -, hnext⟩ := (nextProcessTime_exact (fixedPool_lawful 2) run₂).2
    (by rw [hpending]; exact Multiset.cons_ne_zero)
  rw [hpending] at hd hlow
  -- The later of the two is not a lower bound.
  have hlate : ¬ (5000 : UInt64) ≤ 100 := by decide
  simp only [Multiset.insert_eq_cons, Multiset.mem_cons, Multiset.mem_singleton] at hd
  rcases hd with rfl | rfl
  · exact absurd (hlow ⟨(), 100⟩ (by simp)) hlate
  · rw [hnext, hlast₂, hstart₂]
    rfl

set_option maxRecDepth 2000 in
/-- A deadline of 5 ms registered at 70 ms agrees with the last processed time from bit 30 on. Its
slot lies behind the current one, and the assertion of `next_expiration` fails. -/
theorem nextProcessTime_past_deadline :
    ∃ s s' : Time.Inner (List NodeAddr) Unit,
      (Inner.new [] 0).ProcessInternal (fixedPool 1) 70 (.ok (s, [])) ∧
      s.lastCheckTime = 70 ∧ (70 : UInt64) >>> 30 = (5 : UInt64) >>> 30 ∧
      s.registerTimeoutInternal (fixedPool 1) 5 () = .ok (s', .ok ()) ∧
      s'.nextProcessTime = .error .slotDeadlineInPast :=
  ⟨_, _, ⟨1, rfl⟩, rfl, by decide, rfl, rfl⟩

end Kyron.Proofs.Time
