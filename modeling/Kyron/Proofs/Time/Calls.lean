import Kyron.Time.Calls
import Kyron.Proofs.Time.Process

/-!
# `Kyron.Proofs.Time.Calls`: what holds after any calls to the driver

The invariant of the wheel holds after every sequence of `register_timeout` and
`process_timeouts` calls that return (`driverOk_of_calls`): the checks of `register_timeout` keep
deadlines of the past out, and a deadline that the levels cannot hold makes it panic.

* `processInternal_ends`: the loop of `process_internal` ends. In every iteration the assertions
  hold, the bitmaps are exact, and a node that is filed again goes to a lower level.
* `registerTimeout_answers`: which error `register_timeout` answers, and that an error changes
  nothing. The nodes in use are as many as the pending timers (`card_used_of_calls`), since each
  timer that is woken frees its node and no other node is freed.
-/

set_option autoImplicit false

namespace Kyron.Proofs.Time

open Kyron.Lib
open Kyron.Time
open Function
open Inner

variable {P W : Type} {pool : NodePool P} {live : P → NodeAddr → Prop}
  {used : P → Finset NodeAddr} {k : Nat}

/-! ### The invariant after any calls -/

variable {now : UInt64} {s s' : Time.Inner P W}

/-- A call of `process_timeouts` that returns does so at a time that is not in the past. -/
theorem lastCheckTime_le_of_processInternal {fuel : Nat} {r : Time.Inner P W × List (TimeoutData W)}
    (h : s.processInternal pool fuel now = some (.ok r)) :
    s.lastCheckTime ≤ now ∧ Inner.processLoop pool now fuel s = some (.ok r) := by
  unfold processInternal at h
  split at h
  · rename_i hle
    exact ⟨hle, h⟩
  · cases h

theorem driverOk_of_calls (hpool : pool.Lawful live) {p : P} {startTime : Instant}
    (hrun : Reaches (Inner.call pool) anyStep (.new p startTime) s) : DriverOk live s := by
  refine hrun.invariant (driverOk_new live p startTime) ?_
  intro s c s' hok _ hcall
  cases c with
  | registerTimeout expireAt waker =>
      simp only [call] at hcall
      split at hcall <;> cases hcall
      rename_i r hreg
      rcases registerTimeout_cases hpool hok hreg with ⟨rfl, -⟩ | ⟨-, hok', -⟩
      · exact hok
      · exact hok'
  | processTimeouts fuel now =>
      simp only [call] at hcall
      split at hcall <;> cases hcall
      rename_i woken hproc
      obtain ⟨hle, -⟩ := lastCheckTime_le_of_processInternal hproc
      obtain ⟨s₁, woken₁, hres, hok', -⟩ := processInternal_spec hpool hok hle
      cases (hres _).mp ⟨fuel, hproc⟩
      exact hok'

/-! ### One iteration moves nodes down -/

theorem mem_of_registerAt {level : Nat} {e e' : TimeEntry W} (h : s.registerAt level e = .ok s')
    {l : Fin maxLevels} {i : Fin 64} (hmem : e' ∈ (s'.levels l).slots i) :
    e' ∈ (s.levels l).slots i ∨ e' = e ∧ (l : Nat) = level := by
  unfold registerAt at h
  split at h <;> cases h
  rename_i hlevel
  by_cases hl : l = ⟨level, hlevel⟩
  · subst hl
    simp only [update_self, TimeWheel.registerWakeupOnTimeout] at hmem
    generalize Fin.ofNat 64 (e.data.expireAt / (s.levels ⟨level, hlevel⟩).slotRange).toNat = j
      at hmem
    by_cases hi : i = j
    · subst hi
      rw [update_self, List.mem_cons] at hmem
      rcases hmem with heq | hold
      · exact Or.inr ⟨heq, rfl⟩
      · exact Or.inl hold
    · rw [update_of_ne hi] at hmem
      exact Or.inl hmem
  · simp only [update_of_ne hl] at hmem
    exact Or.inl hmem

/-- Where a node stands after the chain `es` was gone over: where it stood before, or it is one of
the chain that was not due, at the level of its deadline. -/
theorem mem_of_processEntries {t : UInt64} (es : List (TimeEntry W)) {woken : List (TimeoutData W)}
    (h : Inner.processEntries pool t es s = .ok (s', woken)) {e : TimeEntry W} {l : Fin maxLevels}
    {i : Fin 64} (hmem : e ∈ (s'.levels l).slots i) :
    e ∈ (s.levels l).slots i ∨
      e ∈ es ∧ ¬ IsDue t e ∧ (l : Nat) = computeLevelForTimer t e.data.expireAt := by
  induction es generalizing s woken with
  | nil =>
      cases h
      exact Or.inl hmem
  | cons e₀ es ih =>
      unfold processEntries at h
      split at h
      · obtain ⟨r, hrest, hr⟩ := exists_of_bind_eq_ok h
        cases hr
        rcases ih hrest with hold | ⟨he, hrest⟩
        · exact Or.inl hold
        · exact Or.inr ⟨List.mem_cons_of_mem e₀ he, hrest⟩
      · rename_i hdue
        obtain ⟨s₁, hreg, hrest⟩ := exists_of_bind_eq_ok h
        rcases ih hrest with hold | ⟨he, hrest⟩
        · rcases mem_of_registerAt hreg hold with hold | ⟨rfl, hl⟩
          · exact Or.inl hold
          · exact Or.inr ⟨List.mem_cons_self, hdue, hl⟩
        · exact Or.inr ⟨List.mem_cons_of_mem e₀ he, hrest⟩

/-- An iteration that takes a slot: every node of the wheel stands where it stood, outside of that
slot, or comes from the slot and stands at a lower level. -/
theorem mem_of_processStep (hok : DriverOk live s) {woken : List (TimeoutData W)}
    (h : s.processStep pool now = .ok (s', woken, true)) :
    ∃ (info : ExpireInfo) (l : Fin maxLevels),
      s.findNextExpiring s.lastCheckTime = .ok (some info) ∧ info.level = l ∧ info.deadline ≤ now ∧
      ∀ (e : TimeEntry W) (l' : Fin maxLevels) (i : Fin 64), e ∈ (s'.levels l').slots i →
        (l', i) ≠ (l, info.slotId) ∧ e ∈ (s.levels l').slots i ∨
          e ∈ (s.levels l).slots info.slotId ∧ l' < l := by
  obtain ⟨found, hfound, h⟩ := exists_of_bind_eq_ok h
  rcases findNextExpiring_spec hok.levels with
    ⟨-, hnone⟩ | ⟨l, info, hsome, hlevel, -, -, hin, -⟩
  · rw [hnone] at hfound
    cases hfound
    obtain ⟨s₁, -, hr⟩ := exists_of_bind_eq_ok h
    cases hr
  · rw [hsome] at hfound
    cases hfound
    dsimp only at h
    split at h
    · rename_i hdue
      refine ⟨info, l, hsome, hlevel, hdue, ?_⟩
      obtain ⟨⟨s₁, woken₁⟩, hexpired, h⟩ := exists_of_bind_eq_ok h
      obtain ⟨s₂, hset, hr⟩ := exists_of_bind_eq_ok h
      cases hr
      intro e l' i hmem
      have hlevels : s'.levels = s₁.levels := by
        unfold setLastCheckTime at hset
        split at hset <;> cases hset
        rfl
      rw [hlevels] at hmem
      -- The slot is emptied first, then its nodes are filed again.
      have hlt : info.level < maxLevels := hlevel ▸ l.isLt
      have hl : (⟨info.level, hlt⟩ : Fin maxLevels) = l := Fin.ext hlevel
      unfold processExpired at hexpired
      rw [dif_pos hlt, hl, aquireSlot_eq (hlevel.trans (hok.levels l).level_eq.symm)] at hexpired
      rcases mem_of_processEntries _ hexpired hmem with hold | ⟨he, hnot, hl'⟩
      · left
        dsimp only at hold
        by_cases hl' : l' = l
        · subst hl'
          rw [update_self] at hold
          obtain ⟨hi, hold⟩ := mem_emptied_slots.mp hold
          exact ⟨fun heq => hi (congrArg Prod.snd heq), hold⟩
        · rw [update_of_ne hl'] at hold
          exact ⟨fun heq => hl' (congrArg Prod.fst heq), hold⟩
      · right
        refine ⟨he, Fin.lt_def.mpr ?_⟩
        rw [hl']
        exact level_lt_of_not_due (hin e he) hnot
    · obtain ⟨s₁, -, hr⟩ := exists_of_bind_eq_ok h
      cases hr

/-- The invariant in every iteration of a call at a time that is not in the past. -/
theorem driverOk_of_goesOn (hpool : pool.Lawful live) (hok : DriverOk live s)
    (hnow : s.lastCheckTime ≤ now) (hloop : Relation.ReflTransGen (Inner.GoesOn pool now) s s') :
    DriverOk live s' ∧ s'.lastCheckTime ≤ now := by
  induction hloop with
  | refl => exact ⟨hok, hnow⟩
  | tail _ hstep ih =>
      obtain ⟨woken, hstep⟩ := hstep
      rcases processStep_spec hpool ih.1 ih.2 with ⟨s₁, woken₁, heq, hok₁, hle, -⟩ | ⟨heq, -⟩
      · rw [heq] at hstep
        cases hstep
        exact ⟨hok₁, hle⟩
      · rw [heq] at hstep
        cases hstep

/-- After any calls, and for every `now` that is not before the last processed time, the loop of
`process_internal(now)` ends with one result that is no panic. In every state that it goes
through, the bit of a slot is set exactly when the slot holds a node, and the next iteration
passes all its assertions. If that iteration takes a slot, then each node of the wheel stays where
it is, outside of the slot, or moves from the slot to a lower level. -/
theorem processInternal_ends (hpool : pool.Lawful live) {p : P} {startTime : Instant}
    {s : Time.Inner P W} (hrun : Reaches (Inner.call pool) anyStep (.new p startTime) s)
    {now : UInt64} (hnow : s.lastCheckTime ≤ now) :
    (∃ s' woken, ∀ r, s.ProcessInternal pool now r ↔ r = .ok (s', woken)) ∧
    ∀ s₁, Relation.ReflTransGen (Inner.GoesOn pool now) s s₁ →
      (∀ (l : Fin maxLevels) (i : Fin 64),
        (s₁.levels l).occupiedSlots.getLsbD i = true ↔ (s₁.levels l).slots i ≠ []) ∧
      ∃ s₂ woken goOn, s₁.processStep pool now = .ok (s₂, woken, goOn) ∧
        (goOn = true → ∃ (info : ExpireInfo) (l : Fin maxLevels),
          s₁.findNextExpiring s₁.lastCheckTime = .ok (some info) ∧ info.level = l ∧
          ∀ (e : TimeEntry W) (l' : Fin maxLevels) (i : Fin 64), e ∈ (s₂.levels l').slots i →
            (l', i) ≠ (l, info.slotId) ∧ e ∈ (s₁.levels l').slots i ∨
              e ∈ (s₁.levels l).slots info.slotId ∧ l' < l) := by
  have hok := driverOk_of_calls hpool hrun
  refine ⟨?_, ?_⟩
  · obtain ⟨s', woken, hres, -⟩ := processInternal_spec hpool hok hnow
    exact ⟨s', woken, hres⟩
  · intro s₁ hloop
    obtain ⟨hok₁, hle⟩ := driverOk_of_goesOn hpool hok hnow hloop
    refine ⟨fun l i => (hok₁.levels l).occupied i, ?_⟩
    rcases processStep_spec hpool hok₁ hle with ⟨s₂, woken, hstep, -⟩ | ⟨hstep, -⟩
    · refine ⟨s₂, woken, true, hstep, fun _ => ?_⟩
      obtain ⟨info, l, hfind, hlevel, -, hmoves⟩ := mem_of_processStep hok₁ hstep
      exact ⟨info, l, hfind, hlevel, hmoves⟩
    · refine ⟨_, _, false, hstep, fun hfalse => ?_⟩
      cases hfalse

set_option maxRecDepth 2000 in
/-- A timer at 100 ms goes from level 1 to level 0 in the first iteration of a call at 200 ms. -/
theorem processInternal_ends_cascade :
    ∃ s s₁ : Time.Inner (List NodeAddr) Unit,
      Reaches (Inner.call (fixedPool 1)) anyStep (.new [] 0) s ∧
      Inner.GoesOn (fixedPool 1) 200 s s₁ ∧
      (s.levels (1 : Fin 5)).slots 1 = [⟨0, (), 100⟩] ∧
      (s₁.levels (0 : Fin 5)).slots 36 = [⟨0, (), 100⟩] ∧
      (s₁.levels (0 : Fin 5)).occupiedSlots.getLsbD 36 = true ∧
      ∃ s' woken, s.ProcessInternal (fixedPool 1) 200 (.ok (s', woken)) := by
  obtain ⟨s, s₁, hcall, hstep, hlast, hfrom, hto⟩ : ∃ s s₁ : Time.Inner (List NodeAddr) Unit,
      Inner.call (fixedPool 1) (.new [] 0) (.registerTimeout 100000000 ()) = some s ∧
      s.processStep (fixedPool 1) 200 = .ok (s₁, [], true) ∧ s.lastCheckTime = 0 ∧
      (s.levels (1 : Fin 5)).slots 1 = [⟨0, (), 100⟩] ∧
      (s₁.levels (0 : Fin 5)).slots 36 = [⟨0, (), 100⟩] :=
    ⟨_, _, rfl, rfl, rfl, rfl, rfl⟩
  have hrun : Reaches (Inner.call (fixedPool 1)) anyStep (.new [] 0) s :=
    Reaches.refl.tail _ trivial hcall
  have hnow : s.lastCheckTime ≤ 200 := by
    rw [hlast]
    decide
  obtain ⟨⟨s', woken, hres⟩, hloop⟩ := processInternal_ends (fixedPool_lawful 1) hrun hnow
  refine ⟨s, s₁, hrun, ⟨[], hstep⟩, hfrom, hto, ?_, s', woken, (hres _).mpr rfl⟩
  refine ((hloop s₁ (.single ⟨[], hstep⟩)).1 (0 : Fin 5) 36).mpr ?_
  rw [hto]
  exact List.cons_ne_nil _ _

/-! ### The nodes in use -/

section Used

variable (hpool : pool.HoldsNodes k used)
include hpool

theorem card_used_deallocate {p : P} {a : NodeAddr} (ha : a ∈ used p) :
    (used (pool.deallocate p a)).card + 1 = (used p).card := by
  have herase : used (pool.deallocate p a) = (used p).erase a := by
    ext b
    rw [Finset.mem_erase]
    exact hpool.lawful.deallocate_live p a ha b
  rw [herase]
  exact Finset.card_erase_add_one ha

theorem card_used_allocate {p p' : P} {a : NodeAddr} (h : pool.allocate p = some (a, p')) :
    (used p').card = (used p).card + 1 := by
  have hinsert : used p' = insert a (used p) := by
    ext b
    rw [Finset.mem_insert]
    exact hpool.lawful.allocate_live p a p' h b
  rw [hinsert]
  exact Finset.card_insert_of_notMem (hpool.lawful.allocate_fresh p a p' h)

variable {s s' : Time.Inner P W} {woken : List (TimeoutData W)}

/-- Going over a chain frees one node for each timer that it wakes. -/
theorem card_used_processEntries {t : UInt64} (es : List (TimeEntry W))
    (hdistinct : (es.map TimeEntry.addr).Nodup) (hused : ∀ e ∈ es, e.addr ∈ used s.pool)
    (h : Inner.processEntries pool t es s = .ok (s', woken)) :
    (used s'.pool).card + woken.length = (used s.pool).card := by
  induction es generalizing s woken with
  | nil =>
      cases h
      rfl
  | cons e es ih =>
      rw [List.map_cons, List.nodup_cons] at hdistinct
      obtain ⟨hnew, hdistinct⟩ := hdistinct
      unfold processEntries at h
      split at h
      · obtain ⟨⟨s₁, woken₁⟩, hrest, hr⟩ := exists_of_bind_eq_ok h
        cases hr
        have hfreed := card_used_deallocate hpool (hused e List.mem_cons_self)
        -- The nodes further down the chain have other addresses.
        have hleft : ∀ e' ∈ es, e'.addr ∈ used (pool.deallocate s.pool e.addr) := by
          intro e' he'
          refine (hpool.lawful.deallocate_live _ _ (hused e List.mem_cons_self) _).mpr ⟨?_, ?_⟩
          · intro heq
            exact hnew (heq ▸ List.mem_map_of_mem he')
          · exact hused e' (List.mem_cons_of_mem e he')
        have hsum := ih hdistinct hleft hrest
        dsimp only at hsum
        rw [List.length_cons]
        omega
      · obtain ⟨s₁, hreg, hrest⟩ := exists_of_bind_eq_ok h
        have hsame : s₁.pool = s.pool := by
          unfold registerAt at hreg
          split at hreg <;> cases hreg
          rfl
        rw [← hsame]
        refine ih hdistinct ?_ hrest
        intro e' he'
        rw [hsame]
        exact hused e' (List.mem_cons_of_mem e he')

omit hpool in
/-- The nodes of a slot have distinct addresses, which are in use. -/
theorem DriverOk.slot (hok : DriverOk (fun p a => a ∈ used p) s) (l : Fin maxLevels) (i : Fin 64) :
    (((s.levels l).slots i).map TimeEntry.addr).Nodup ∧
      ∀ e ∈ (s.levels l).slots i, e.addr ∈ used s.pool := by
  constructor
  · have hdistinct := hok.pool.distinct
    rw [nodes_emptied s.levels l i, Multiset.map_add] at hdistinct
    exact Multiset.coe_nodup.mp (Multiset.nodup_of_le (Multiset.le_add_right _ _) hdistinct)
  · intro e he
    exact hok.pool.isLive e (mem_nodes.mpr ⟨l, i, he⟩)

/-- One iteration frees one node for each timer that it wakes. -/
theorem card_used_processStep (hok : DriverOk (fun p a => a ∈ used p) s) {now : UInt64}
    {goOn : Bool} (h : s.processStep pool now = .ok (s', woken, goOn)) :
    (used s'.pool).card + woken.length = (used s.pool).card := by
  have hset : ∀ {s s' : Time.Inner P W} {t : UInt64}, s.setLastCheckTime t = .ok s' →
      s'.pool = s.pool := by
    intro s s' t hset
    unfold setLastCheckTime at hset
    split at hset <;> cases hset
    rfl
  obtain ⟨found, hfound, h⟩ := exists_of_bind_eq_ok h
  split at h
  · split at h
    · obtain ⟨⟨s₁, woken₁⟩, hexpired, h⟩ := exists_of_bind_eq_ok h
      obtain ⟨s₂, hcheck, hr⟩ := exists_of_bind_eq_ok h
      cases hr
      rw [hset hcheck]
      unfold processExpired at hexpired
      split at hexpired
      · obtain ⟨⟨entries, wheel⟩, hacquired, hentries⟩ := exists_of_bind_eq_ok hexpired
        unfold TimeWheel.aquireSlot at hacquired
        split at hacquired <;> cases hacquired
        -- The slot is emptied, and the pool is still that of `s`.
        have hsum := fun hdistinct hused =>
          card_used_processEntries hpool _ hdistinct hused hentries
        exact hsum (hok.slot _ _).1 (hok.slot _ _).2
      · cases hexpired
    · obtain ⟨s₁, hcheck, hr⟩ := exists_of_bind_eq_ok h
      cases hr
      rw [hset hcheck]
      rfl
  · obtain ⟨s₁, hcheck, hr⟩ := exists_of_bind_eq_ok h
    cases hr
    rw [hset hcheck]
    rfl

theorem card_used_processLoop {now : UInt64} (fuel : Nat) (hok : DriverOk (fun p a => a ∈ used p) s)
    (hnow : s.lastCheckTime ≤ now)
    (h : Inner.processLoop pool now fuel s = some (.ok (s', woken))) :
    (used s'.pool).card + woken.length = (used s.pool).card := by
  induction fuel generalizing s woken with
  | zero => cases h
  | succ fuel ih =>
      unfold processLoop at h
      split at h
      · cases h
      · rename_i hstep
        cases h
        exact card_used_processStep hpool hok hstep
      · rename_i s₁ woken₁ hstep
        obtain ⟨r, hrest, hr⟩ := Option.map_eq_some_iff.mp h
        cases r with
        | error e => cases hr
        | ok r =>
            obtain ⟨s₂, later⟩ := r
            cases hr
            obtain ⟨hok₁, hle⟩ :=
              driverOk_of_goesOn hpool.lawful hok hnow (.single ⟨woken₁, hstep⟩)
            have hfirst := card_used_processStep hpool hok hstep
            have hlater := ih hok₁ hle hrest
            rw [List.length_append]
            omega

/-- A registration that succeeds takes one node. -/
theorem card_used_registerTimeout {expireAt : Instant} {waker : W}
    (h : s.registerTimeout pool expireAt waker = .ok (s', .ok ())) :
    (used s'.pool).card = (used s.pool).card + 1 := by
  unfold registerTimeout at h
  split at h
  · split at h
    · cases h
    · unfold registerTimeoutInternal at h
      split at h
      · cases h
      · rename_i addr p halloc
        obtain ⟨s₁, hreg, hr⟩ := exists_of_bind_eq_ok h
        cases hr
        unfold registerAt at hreg
        split at hreg <;> cases hreg
        exact card_used_allocate hpool halloc
  · cases h

/-- After any calls the nodes in use are as many as the pending timers. -/
theorem card_used_of_calls {p : P} (hp : used p = ∅) {startTime : Instant}
    (hrun : Reaches (Inner.call pool) anyStep (.new p startTime) s) :
    (used s.pool).card = (pending s).card := by
  have hinv : DriverOk (fun p a => a ∈ used p) s ∧ (used s.pool).card = (pending s).card := by
    refine hrun.invariant (I := fun s => DriverOk (fun p a => a ∈ used p) s ∧
      (used s.pool).card = (pending s).card) ⟨driverOk_new _ p startTime, ?_⟩ ?_
    · show (used p).card = ((nodes fun l : Fin maxLevels => TimeWheel.new l).map _).card
      rw [hp, nodes_new]
      rfl
    · rintro s c s' ⟨hok, hcard⟩ _ hcall
      cases c with
      | registerTimeout expireAt waker =>
          simp only [call] at hcall
          split at hcall <;> cases hcall
          rename_i r hreg
          rcases registerTimeout_cases hpool.lawful hok hreg with
            ⟨rfl, -⟩ | ⟨rfl, hok', -, -, hadd⟩
          · exact ⟨hok, hcard⟩
          · refine ⟨hok', ?_⟩
            rw [hadd, Multiset.card_cons, ← hcard]
            exact card_used_registerTimeout hpool hreg
      | processTimeouts fuel now =>
          simp only [call] at hcall
          split at hcall <;> cases hcall
          rename_i woken hproc
          obtain ⟨hle, hloop⟩ := lastCheckTime_le_of_processInternal hproc
          obtain ⟨s₁, woken₁, hres, hok', -, hwoken, -, hnodes⟩ :=
            processInternal_spec hpool.lawful hok hle
          cases (hres _).mp ⟨fuel, hproc⟩
          have hfreed := card_used_processLoop hpool fuel hok hle hloop
          refine ⟨hok', ?_⟩
          have hlength : woken.length + (pending s').card = (pending s).card := by
            rw [← Multiset.coe_card, hwoken]
            unfold pending
            rw [hnodes, Multiset.card_map, Multiset.card_map, Multiset.card_map,
              ← Multiset.card_add, Multiset.filter_add_not]
          omega
  exact hinv.2

/-- After any calls the nodes in use are as many as the pending timers. A call of
`register_timeout` with an instant before the start of the driver panics. Every other call returns,
if the levels can hold the deadline where it is accepted. It answers `AlreadyDone` exactly when the
deadline is before the last processed time, `WrongArgs` exactly when it is too far ahead of it and
`NoSpaceLeft` exactly when neither is the case and `k` timers are pending. It changes nothing in
those cases, and in the remaining one it adds its timer. -/
theorem registerTimeout_answers {p : P} (hp : used p = ∅) {startTime : Instant}
    {s : Time.Inner P W} (hrun : Reaches (Inner.call pool) anyStep (.new p startTime) s) :
    (used s.pool).card = (pending s).card ∧
    ∀ (expireAt : Instant) (waker : W) (ms : UInt64), ms = s.instantIntoU64 expireAt →
      (expireAt < s.startTime →
        s.registerTimeout pool expireAt waker = .error .registerBeforeStart) ∧
      (s.startTime ≤ expireAt →
        (s.acceptsTimeout ms = .ok () → (pending s).card ≠ k →
          s.lastCheckTime >>> 30 = ms >>> 30) →
        ∃ s' r, s.registerTimeout pool expireAt waker = .ok (s', r) ∧
          (r = .error .alreadyDone ↔ ms < s.lastCheckTime) ∧
          (r = .error .wrongArgs ↔
            s.lastCheckTime ≤ ms ∧ maxTimeoutTime < ms - s.lastCheckTime) ∧
          (r = .error .noSpaceLeft ↔
            s.lastCheckTime ≤ ms ∧ ms - s.lastCheckTime ≤ maxTimeoutTime ∧ (pending s).card = k) ∧
          (r = .ok () ↔
            s.lastCheckTime ≤ ms ∧ ms - s.lastCheckTime ≤ maxTimeoutTime ∧ (pending s).card ≠ k) ∧
          (r ≠ .ok () → s' = s) ∧
          (r = .ok () → s'.lastCheckTime = s.lastCheckTime ∧
            pending s' = ⟨waker, ms⟩ ::ₘ pending s)) := by
  have hcard := card_used_of_calls hpool hp hrun
  have hok := driverOk_of_calls hpool.lawful hrun
  refine ⟨hcard, ?_⟩
  rintro expireAt waker ms rfl
  unfold registerTimeout
  refine ⟨?_, ?_⟩
  · intro hbefore
    rw [if_neg (Nat.not_le.mpr hbefore)]
  · intro hstart hfits
    rw [if_pos hstart]
    generalize s.instantIntoU64 expireAt = ms at hfits ⊢
    rcases acceptsTimeout_cases s ms with
      ⟨haccept, hpast⟩ | ⟨haccept, hle, hfar⟩ | ⟨haccept, hle, hnear⟩
    · have hnot : ¬ s.lastCheckTime ≤ ms := UInt64.not_le.mpr hpast
      refine ⟨s, .error .alreadyDone, by rw [haccept], ?_⟩
      simp [hpast, hnot]
    · have hpast : ¬ ms < s.lastCheckTime := UInt64.not_lt.mpr hle
      have hnot : ¬ ms - s.lastCheckTime ≤ maxTimeoutTime := UInt64.not_le.mpr hfar
      refine ⟨s, .error .wrongArgs, by rw [haccept], ?_⟩
      simp [hpast, hle, hfar, hnot]
    · have hpast : ¬ ms < s.lastCheckTime := UInt64.not_lt.mpr hle
      have hfar : ¬ maxTimeoutTime < ms - s.lastCheckTime := UInt64.not_lt.mpr hnear
      rw [haccept]
      by_cases hfull : (pending s).card = k
      · have halloc : pool.allocate s.pool = none :=
          (hpool.allocate_none s.pool).mpr (hcard.trans hfull)
        refine ⟨s, .error .noSpaceLeft, ?_, ?_⟩
        · unfold registerTimeoutInternal
          rw [halloc]
        · simp [hpast, hle, hfar, hnear, hfull]
      · rcases registerTimeoutInternal_spec hpool.lawful hok waker hle (hfits haccept hfull) with
          ⟨halloc, -⟩ | ⟨s', hreg, -, hlast, hadd⟩
        · -- The pool has a node, so the registration does not run out of them.
          exact absurd (hcard.symm.trans ((hpool.allocate_none s.pool).mp halloc)) hfull
        · refine ⟨s', .ok (), hreg, ?_⟩
          simp [hpast, hle, hfar, hnear, hfull, hlast, hadd]

end Used

theorem mem_flaggedNodes {flags : Fin k → Bool} {a : NodeAddr} :
    a ∈ flaggedNodes flags ↔ ∃ h : a < k, flags ⟨a, h⟩ = true := by
  simp only [flaggedNodes, Finset.mem_map, Finset.mem_filter, Finset.mem_univ, true_and,
    Fin.valEmbedding_apply]
  constructor
  · rintro ⟨b, hb, rfl⟩
    exact ⟨b.isLt, hb⟩
  · rintro ⟨h, ha⟩
    exact ⟨⟨a, h⟩, ha, rfl⟩

/-- The pool with a flag for each node meets the assumptions. -/
theorem flagPool_holdsNodes (k : Nat) : (flagPool k).HoldsNodes k flaggedNodes where
  lawful :=
    { allocate_fresh := by
        intro flags a flags' halloc
        obtain ⟨b, hb, hr⟩ := Option.map_eq_some_iff.mp halloc
        cases hr
        have hfree := List.find?_some hb
        intro hmem
        obtain ⟨_, hset⟩ := mem_flaggedNodes.mp hmem
        rw [hset] at hfree
        cases hfree
      allocate_live := by
        intro flags a flags' halloc b
        obtain ⟨c, -, hr⟩ := Option.map_eq_some_iff.mp halloc
        cases hr
        rw [mem_flaggedNodes, mem_flaggedNodes]
        by_cases hb : b = c
        · subst hb
          simp
        · have hne : ∀ h : b < k, (⟨b, h⟩ : Fin k) ≠ c := fun h heq => hb (congrArg Fin.val heq)
          simp [hb, update_of_ne (hne _)]
      deallocate_live := by
        intro flags a ha b
        obtain ⟨hlt, -⟩ := mem_flaggedNodes.mp ha
        simp only [flagPool, dif_pos hlt, mem_flaggedNodes]
        by_cases hb : b = a
        · subst hb
          simp
        · simp [hb] }
  allocate_none := by
    intro flags
    have hcard : (flaggedNodes flags).card = (Finset.univ.filter fun a => flags a = true).card :=
      Finset.card_map _
    have hall := Finset.card_filter_eq_iff (s := Finset.univ) (p := fun a => flags a = true)
    rw [Finset.card_univ, Fintype.card_fin] at hall
    rw [hcard, hall]
    simp [flagPool, List.find?_eq_none]

set_option maxRecDepth 2000 in
/-- A driver for one timer: while a timer at 100 ms is pending, one at 200 ms is refused for want
of a node, and it is accepted once the first was woken. -/
theorem registerTimeout_answers_again :
    ∃ s s' : Time.Inner (Fin 1 → Bool) Unit,
      Reaches (Inner.call (flagPool 1)) anyStep (.new (fun _ => false) 0) s ∧
      Reaches (Inner.call (flagPool 1)) anyStep (.new (fun _ => false) 0) s' ∧
      (pending s).card = 1 ∧ (pending s').card = 0 ∧
      s.registerTimeout (flagPool 1) 200000000 () = .ok (s, .error .noSpaceLeft) ∧
      ∃ s₁, s'.registerTimeout (flagPool 1) 200000000 () = .ok (s₁, .ok ()) := by
  obtain ⟨s, s', hcall, hproc, hstart, hlast, hone, hstart', hlast', hnone⟩ :
      ∃ s s' : Time.Inner (Fin 1 → Bool) Unit,
        Inner.call (flagPool 1) (.new (fun _ => false) 0) (.registerTimeout 100000000 ()) = some s ∧
        Inner.call (flagPool 1) s (.processTimeouts 3 100000000) = some s' ∧
        s.startTime = 0 ∧ s.lastCheckTime = 0 ∧ (flaggedNodes s.pool).card = 1 ∧
        s'.startTime = 0 ∧ s'.lastCheckTime = 100 ∧ (flaggedNodes s'.pool).card = 0 :=
    ⟨_, _, rfl, rfl, rfl, rfl, rfl, rfl, rfl, rfl⟩
  have hrun : Reaches (Inner.call (flagPool 1)) anyStep (.new (fun _ => false) 0) s :=
    Reaches.refl.tail _ trivial hcall
  have hms : ∀ t : Time.Inner (Fin 1 → Bool) Unit, t.startTime = 0 →
      200 = t.instantIntoU64 200000000 := by
    intro t ht
    unfold instantIntoU64
    rw [ht]
    rfl
  have hrun' := hrun.tail _ trivial hproc
  obtain ⟨hcard, hanswer⟩ := registerTimeout_answers (flagPool_holdsNodes 1) rfl hrun
  obtain ⟨hcard', hanswer'⟩ := registerTimeout_answers (flagPool_holdsNodes 1) rfl hrun'
  rw [hone] at hcard
  rw [hnone] at hcard'
  refine ⟨s, s', hrun, hrun', hcard.symm, hcard'.symm, ?_, ?_⟩
  · obtain ⟨s₁, r, heq, -, -, hno, -, hsame, -⟩ := (hanswer 200000000 () 200 (hms s hstart)).2
      (by rw [hstart]; decide) (fun _ _ => by rw [hlast]; decide)
    have hr : r = .error .noSpaceLeft := hno.mpr (by rw [hlast, ← hcard]; decide)
    rw [heq, hr, hsame (by rw [hr]; exact nofun)]
  · obtain ⟨s₁, r, heq, -, -, -, hyes, -⟩ := (hanswer' 200000000 () 200 (hms s' hstart')).2
      (by rw [hstart']; decide) (fun _ _ => by rw [hlast']; decide)
    have hr : r = .ok () := hyes.mpr (by rw [hlast', ← hcard']; decide)
    exact ⟨s₁, by rw [heq, hr]⟩

end Kyron.Proofs.Time
