import Kyron.Futures.Select
import Kyron.Lib.Bits
import Kyron.Lib.Transition

/-!
# `Kyron.Proofs.Futures.Select`: the order of `select!` and who it waits for

As long as `select!` returns `Pending`, it polls in each round the futures that have not finished,
each of them once. So in round `n` such a future answers as in its poll number `n`, and
`matchAt n c` says what the case `c` gives then. `RoundSpec` is what the blocks of the cases do in one round.

* `select_in_order`: no future is polled after `Ready`, the result is the first match, and a round
  that returns `Pending` has polled a future that is not finished if there is one.
* `select_waits_for_nobody`: all futures have finished with values that their patterns refuse.
-/

set_option autoImplicit false

namespace Kyron.Proofs.Futures

open Kyron.Futures
open Kyron.Lib

variable {R W : Type}

/-! ### What the scripts say -/

/-- The first `n` polls of the future return `Pending`. -/
def unfinished (c : SelectCase R) : Nat → Bool
  | 0 => true
  | n + 1 =>
      unfinished c n &&
        match c.script n with
        | .pending => true
        | .ready _ => false

/-- What the case gives in round `n`: its future has not finished before, is ready then, and its
pattern takes the value. -/
def matchAt (n : Nat) (c : SelectCase R) : Option R :=
  if unfinished c n then
    match c.script n with
    | .pending => none
    | .ready result => c.arm result
  else
    none

/-- What `select!` returns in round `n`: the first case that gives something. -/
def firstMatch (n : Nat) (cases : List (SelectCase R)) : Poll R :=
  (cases.findSome? (matchAt n)).elim .pending .ready

theorem firstMatch_cons_none {n : Nat} {c : SelectCase R} {cases : List (SelectCase R)}
    (h : matchAt n c = none) : firstMatch n (c :: cases) = firstMatch n cases := by
  simp [firstMatch, h]

theorem firstMatch_cons_some {n : Nat} {c : SelectCase R} {cases : List (SelectCase R)} {value : R}
    (h : matchAt n c = some value) : firstMatch n (c :: cases) = .ready value := by
  simp [firstMatch, h]

/-! ### One round -/

/-- The case with the number `i` is disabled. -/
def isDisabled (s : SelectState) (i : Nat) : Bool := s.disabledCases.getLsbD i

/-- Before round `n` the case is disabled if and only if its future has finished, and one that has
not was polled in every round. -/
structure CaseOk (n i : Nat) (c : SelectCase R) (s : SelectState) : Prop where
  disabled : isDisabled s i = !unfinished c n
  polled : unfinished c n = true → s.polled i = n

/-- The cases from the number `i` on. -/
def CasesOk (n : Nat) : Nat → List (SelectCase R) → SelectState → Prop
  | _, [], _ => True
  | i, c :: cases, s => CaseOk n i c s ∧ CasesOk n (i + 1) cases s

/-- Two states agree on the case with the number `i`. -/
def SameCase (i : Nat) (s s' : SelectState) : Prop :=
  isDisabled s' i = isDisabled s i ∧ s'.polled i = s.polled i

theorem CaseOk.congr {n i : Nat} {c : SelectCase R} {s s' : SelectState} (h : CaseOk n i c s)
    (hsame : SameCase i s s') : CaseOk n i c s' :=
  ⟨hsame.1.trans h.disabled, fun hc => hsame.2.trans (h.polled hc)⟩

theorem CasesOk.congr {n i : Nat} {cases : List (SelectCase R)} {s s' : SelectState}
    (h : CasesOk n i cases s) (hsame : ∀ j, i ≤ j → SameCase j s s') : CasesOk n i cases s' := by
  induction cases generalizing i with
  | nil => trivial
  | cons c cases ih =>
      exact ⟨h.1.congr (hsame i (Nat.le_refl i)),
        ih h.2 fun j hj => hsame j (Nat.le_trans (Nat.le_succ i) hj)⟩

/-- What the blocks of the cases from the number `i` on do in round `n`. -/
structure RoundSpec (context : W) (n i : Nat) (cases : List (SelectCase R)) (s : SelectState)
    (round : SelectRound R W) : Prop where
  answer : round.answer = firstMatch n cases
  below : ∀ j < i, SameCase j s round.state
  disabled : ∀ j, isDisabled s j = true → isDisabled round.state j = true
  next : round.answer = .pending → CasesOk (n + 1) i cases round.state
  context_eq : ∀ p ∈ round.polls, p.context = context
  enabled : ∀ p ∈ round.polls, i ≤ p.case ∧ isDisabled s p.case = false
  ready : ∀ p ∈ round.polls, p.ready = true → round.answer = .pending →
    isDisabled round.state p.case = true
  sorted : round.polls.Pairwise fun p q => p.case < q.case
  /-- The polls that return `Pending` are those of the futures that have not finished. -/
  waiting : round.answer = .pending → ∀ j, ⟨j, context, false⟩ ∈ round.polls ↔
    i ≤ j ∧ ∃ c, cases[j - i]? = some c ∧ unfinished c (n + 1) = true

theorem roundSpec_nil (context : W) (n i : Nat) (s : SelectState) :
    RoundSpec context n i ([] : List (SelectCase R)) s ⟨.pending, s, []⟩ where
  answer := rfl
  below := fun _ _ => ⟨rfl, rfl⟩
  disabled := fun _ h => h
  next := fun _ => trivial
  context_eq := fun _ hp => by cases hp
  enabled := fun _ hp => by cases hp
  ready := fun _ hp => by cases hp
  sorted := List.Pairwise.nil
  waiting := by simp

section Cons

variable {context : W} {n i : Nat} {c : SelectCase R} {cases : List (SelectCase R)}
  {s s₁ : SelectState} {round : SelectRound R W}

/-- The polls of one block: none, or one that was ready or not. -/
def pollsAt (i : Nat) (context : W) : Option Bool → List (CasePoll W)
  | none => []
  | some ready => [⟨i, context, ready⟩]

theorem mem_pollsAt {p : CasePoll W} {poll : Option Bool} (h : p ∈ pollsAt i context poll) :
    p.case = i ∧ p.context = context ∧ poll = some p.ready := by
  cases poll with
  | none => cases h
  | some ready =>
      cases List.mem_singleton.mp h
      exact ⟨rfl, rfl, rfl⟩

theorem mem_pollsAt_iff {poll : Option Bool} {ready : Bool} :
    ⟨i, context, ready⟩ ∈ pollsAt i context poll ↔ poll = some ready := by
  cases poll with
  | none => simp [pollsAt]
  | some ready' => simp [pollsAt, eq_comm]

/-- The block of a case that gives nothing, and then the blocks of the others. -/
theorem RoundSpec.cons (poll : Option Bool) (h : RoundSpec context n (i + 1) cases s₁ round)
    (hmatch : matchAt n c = none) (hothers : ∀ j, j ≠ i → SameCase j s s₁)
    (hdisabled : isDisabled s i = true → isDisabled s₁ i = true) (hnext : CaseOk (n + 1) i c s₁)
    (henabled : poll ≠ none → isDisabled s i = false)
    (hready : poll = some true → isDisabled s₁ i = true)
    (hwaiting : poll = some false ↔ unfinished c (n + 1) = true) :
    RoundSpec context n i (c :: cases) s
      { round with polls := pollsAt i context poll ++ round.polls } where
  answer := h.answer.trans (firstMatch_cons_none hmatch).symm
  below := by
    intro j hj
    have hrest := h.below j (by omega)
    have hhead := hothers j (by omega)
    exact ⟨hrest.1.trans hhead.1, hrest.2.trans hhead.2⟩
  disabled := by
    intro j hj
    refine h.disabled j ?_
    by_cases heq : j = i
    · subst heq
      exact hdisabled hj
    · rw [(hothers j heq).1]
      exact hj
  next := fun hpending => ⟨hnext.congr (h.below i (Nat.lt_succ_self i)), h.next hpending⟩
  context_eq := by
    intro p hp
    rcases List.mem_append.mp hp with hp | hp
    · exact (mem_pollsAt hp).2.1
    · exact h.context_eq p hp
  enabled := by
    intro p hp
    rcases List.mem_append.mp hp with hp | hp
    · obtain ⟨hcase, -, hpoll⟩ := mem_pollsAt hp
      rw [hcase]
      exact ⟨Nat.le_refl i, henabled (by rw [hpoll]; simp)⟩
    · obtain ⟨hle, hfalse⟩ := h.enabled p hp
      rw [(hothers p.case (by omega)).1] at hfalse
      exact ⟨by omega, hfalse⟩
  ready := by
    intro p hp hr hpending
    rcases List.mem_append.mp hp with hp | hp
    · obtain ⟨hcase, -, hpoll⟩ := mem_pollsAt hp
      rw [hcase]
      rw [hr] at hpoll
      exact h.disabled i (hready hpoll)
    · exact h.ready p hp hr hpending
  sorted := by
    refine List.pairwise_append.mpr ⟨?_, h.sorted, fun p hp q hq => ?_⟩
    · cases poll with
      | none => exact List.Pairwise.nil
      | some ready => exact List.pairwise_singleton _ _
    · rw [(mem_pollsAt hp).1]
      exact (h.enabled q hq).1
  waiting := by
    -- The case `i` is in the polls of its block, and all later ones are in those of the rest.
    intro hpending j
    rw [List.mem_append, h.waiting hpending j]
    by_cases heq : j = i
    · subst heq
      rw [mem_pollsAt_iff, hwaiting]
      simp
    · have hout : ⟨j, context, false⟩ ∉ pollsAt i context poll := fun hmem =>
        heq (mem_pollsAt hmem).1
      rcases Nat.lt_or_gt_of_ne heq with hlt | hgt
      · simp [hout, Nat.not_le.mpr hlt, show ¬ i + 1 ≤ j by omega]
      · rw [show j - i = j - (i + 1) + 1 by omega]
        simp [hout, show i + 1 ≤ j by omega, show i ≤ j by omega]

theorem unfinished_succ_pending (hscript : c.script n = .pending) :
    unfinished c (n + 1) = unfinished c n := by
  simp [unfinished, hscript]

theorem unfinished_succ_ready {result : c.Out} (hscript : c.script n = .ready result) :
    unfinished c (n + 1) = false := by
  simp [unfinished, hscript]

theorem sameCase_count {j : Nat} (h : j ≠ i) : SameCase j s (s.count i) :=
  ⟨rfl, if_neg h⟩

theorem isDisabled_disable {j : Nat} (hi : i < 64) :
    isDisabled (s.disable (1#64 <<< i)) j = (isDisabled s j || decide (j = i)) :=
  getLsbD_or_oneBit hi s.disabledCases j

theorem sameCase_disable {j : Nat} (hi : i < 64) (h : j ≠ i) :
    SameCase j s ((s.count i).disable (1#64 <<< i)) := by
  refine ⟨?_, (sameCase_count h).2⟩
  rw [isDisabled_disable hi, decide_eq_false h, Bool.or_false]
  rfl

/-- The block of a case that is disabled, and so its future has finished. -/
theorem RoundSpec.skip (h : RoundSpec context n (i + 1) cases s round) (hcase : CaseOk n i c s)
    (hdis : isDisabled s i = true) : RoundSpec context n i (c :: cases) s round := by
  have hfinished : unfinished c n = false := by
    simpa [hdis] using hcase.disabled
  have hsucc : unfinished c (n + 1) = false := by simp [unfinished, hfinished]
  refine h.cons none (by simp [matchAt, hfinished]) (fun _ _ => ⟨rfl, rfl⟩) id ⟨?_, ?_⟩
    (fun hne => absurd rfl hne) (fun hsome => by cases hsome) ?_
  · rw [hdis, hsucc]
    rfl
  · rw [hsucc]
    exact fun hfalse => by cases hfalse
  · simp [hsucc]

/-- The block of a case whose future returns `Pending`. -/
theorem RoundSpec.wait (h : RoundSpec context n (i + 1) cases (s.count i) round)
    (hpolled : s.polled i = n) (hdis : isDisabled s i = false) (hopen : unfinished c n = true)
    (hscript : c.script n = .pending) :
    RoundSpec context n i (c :: cases) s (round.after ⟨i, context, false⟩) := by
  have hsucc : unfinished c (n + 1) = true := (unfinished_succ_pending hscript).trans hopen
  refine h.cons (some false) (by simp [matchAt, hopen, hscript]) (fun j hj => sameCase_count hj) id
    ⟨?_, ?_⟩ (fun _ => hdis) (fun htrue => by cases htrue) (by simp [hsucc])
  · rw [hsucc]
    exact hdis
  · intro _
    simp [SelectState.count, hpolled]

/-- The block of a case whose pattern refuses what its future has returned. -/
theorem RoundSpec.refuse
    (h : RoundSpec context n (i + 1) cases ((s.count i).disable (1#64 <<< i)) round) (hi : i < 64)
    (hdis : isDisabled s i = false) (hmatch : matchAt n c = none) {result : c.Out}
    (hscript : c.script n = .ready result) :
    RoundSpec context n i (c :: cases) s (round.after ⟨i, context, true⟩) := by
  have hsucc := unfinished_succ_ready hscript
  have hset : isDisabled ((s.count i).disable (1#64 <<< i)) i = true := by
    rw [isDisabled_disable hi, decide_eq_true rfl, Bool.or_true]
  refine h.cons (some true) hmatch (fun j hj => sameCase_disable hi hj) (fun _ => hset) ⟨?_, ?_⟩
    (fun _ => hdis) (fun _ => hset) (by simp [hsucc])
  · rw [hsucc]
    exact hset
  · rw [hsucc]
    exact fun hfalse => by cases hfalse

/-- The block of a case that returns a value. -/
theorem roundSpec_return {value : R} (hdis : isDisabled s i = false)
    (hmatch : matchAt n c = some value) :
    RoundSpec context n i (c :: cases) s ⟨.ready value, s.count i, [⟨i, context, true⟩]⟩ where
  answer := (firstMatch_cons_some hmatch).symm
  below := fun j hj => sameCase_count (by omega)
  disabled := fun _ h => h
  next := fun hpending => by cases hpending
  context_eq := by simp
  enabled := by simp [hdis]
  ready := fun _ _ _ hpending => by cases hpending
  sorted := List.pairwise_singleton _ _
  waiting := fun hpending => by cases hpending

/-- What the blocks of the cases do in a round. -/
theorem pollCases_spec (context : W) (n : Nat) (cases : List (SelectCase R)) :
    ∀ (i : Nat) (s : SelectState), i + cases.length ≤ 64 → CasesOk n i cases s →
      RoundSpec context n i cases s (pollCases context i cases s) := by
  -- By induction on the cases, over every state that the blocks before can leave.
  induction cases with
  | nil => exact fun i s _ _ => roundSpec_nil context n i s
  | cons c cases ih =>
      intro i s hlen hok
      rw [List.length_cons] at hlen
      have hi : i < 64 := by omega
      have hlen' : i + 1 + cases.length ≤ 64 := by omega
      obtain ⟨hcase, hcases⟩ := hok
      unfold pollCases
      cases hdis : isDisabled s i with
      | true =>
          have hnot : ¬ s.disabledCases &&& 1#64 <<< i = 0#64 := by
            rw [and_oneBit_eq_zero hi]
            exact Bool.eq_false_iff.not.mpr (not_not.mpr hdis)
          rw [if_neg hnot]
          exact (ih (i + 1) s hlen' hcases).skip hcase hdis
      | false =>
          have hopen : unfinished c n = true := by
            simpa [hdis] using hcase.disabled
          have hpolled := hcase.polled hopen
          rw [if_pos ((and_oneBit_eq_zero hi s.disabledCases).mpr hdis), hpolled]
          cases hscript : c.script n with
          | pending =>
              have hrest := ih (i + 1) (s.count i) hlen'
                (hcases.congr fun j hj => sameCase_count (by omega))
              exact hrest.wait hpolled hdis hopen hscript
          | ready result =>
              dsimp only
              cases harm : c.arm result with
              | some value =>
                  exact roundSpec_return hdis (by simp [matchAt, hopen, hscript, harm])
              | none =>
                  have hrest := ih (i + 1) _ hlen'
                    (hcases.congr fun j hj => sameCase_disable hi (by omega))
                  exact hrest.refuse hi hdis (by simp [matchAt, hopen, hscript, harm]) hscript

end Cons

/-! ### Whole runs -/

/-- A future that has returned `Ready` is not polled again. -/
def OncePolled (polls : List (CasePoll W)) : Prop :=
  polls.Pairwise fun p q => p.ready = true → q.case ≠ p.case

structure RunOk (cases : List (SelectCase R)) (run : SelectRun R W) : Prop where
  cases_ok : run.answer = .pending → CasesOk run.rounds.length 0 cases run.state
  finished : ∀ p ∈ run.rounds.flatten, p.ready = true → run.answer = .pending →
    isDisabled run.state p.case = true
  once : OncePolled run.rounds.flatten
  before : ∀ k, k + 1 < run.rounds.length → firstMatch k cases = .pending
  answer : ∀ k, k + 1 = run.rounds.length → run.answer = firstMatch k cases

theorem casesOk_new (cases : List (SelectCase R)) (i : Nat) : CasesOk 0 i cases .new := by
  induction cases generalizing i with
  | nil => trivial
  | cons c cases ih => exact ⟨⟨BitVec.getLsbD_zero, fun _ => rfl⟩, ih (i + 1)⟩

theorem runOk_new (cases : List (SelectCase R)) : RunOk cases (SelectRun.new : SelectRun R W) where
  cases_ok := fun _ => casesOk_new cases 0
  finished := fun _ hp => by cases hp
  once := List.Pairwise.nil
  before := fun _ hk => absurd hk (Nat.not_lt_zero _)
  answer := fun _ hk => absurd hk (Nat.succ_ne_zero _)

section Run

variable {cases : List (SelectCase R)} {run run' : SelectRun R W} {context : W}

/-- A poll of `select!` is a round of its cases. -/
theorem poll_cases (h : run.poll cases context = some run') :
    run.answer = .pending ∧
      run' = { state := (pollCases context 0 cases run.state).state
               rounds := run.rounds ++ [(pollCases context 0 cases run.state).polls]
               answer := (pollCases context 0 cases run.state).answer } := by
  unfold SelectRun.poll at h
  split at h
  · cases h
  · rename_i hpending
    cases h
    exact ⟨hpending, rfl⟩

theorem RunOk.poll (h : RunOk cases run) (hcases : cases.length ≤ 64)
    (hpoll : run.poll cases context = some run') : RunOk cases run' := by
  obtain ⟨hpending, rfl⟩ := poll_cases hpoll
  have hspec := pollCases_spec context run.rounds.length cases 0 run.state (by omega)
    (h.cases_ok hpending)
  constructor
  · intro hnext
    show CasesOk (run.rounds ++ [_]).length 0 cases _
    rw [List.length_append]
    exact hspec.next hnext
  · intro p hp hready hnext
    rw [List.flatten_append, List.flatten_singleton, List.mem_append] at hp
    rcases hp with hp | hp
    · exact hspec.disabled _ (h.finished p hp hready hpending)
    · exact hspec.ready p hp hready hnext
  · -- An earlier poll that was ready has disabled its case, and a round polls each case once.
    show OncePolled (run.rounds ++ [_]).flatten
    rw [List.flatten_append, List.flatten_singleton]
    refine List.pairwise_append.mpr ⟨h.once, ?_, fun p hp q hq hready heq => ?_⟩
    · refine hspec.sorted.imp ?_
      intro p q hlt _
      exact Nat.ne_of_gt hlt
    · have henabled := (hspec.enabled q hq).2
      rw [heq, h.finished p hp hready hpending] at henabled
      cases henabled
  · intro k hk
    rw [List.length_append, List.length_singleton] at hk
    rcases Nat.lt_or_eq_of_le (Nat.le_of_lt_succ hk) with hlt | heq
    · exact h.before k hlt
    · rw [← h.answer k heq, hpending]
  · intro k hk
    rw [List.length_append, List.length_singleton] at hk
    rw [hspec.answer, Nat.succ.inj hk]

/-- For up to 64 cases, all patterns and all that the futures can do over any number of rounds of
`select!` with any contexts:

* no future is polled again after it has returned `Ready`;
* no round before the last one has a case whose future is ready with a value that its pattern takes,
  and the answer of the last round is the block of the first such case in the order of the cases;
* if a round returns `Pending` and the future of some case has not finished, then a future that has
  not finished was polled in that round, with the context of the round. -/
theorem select_in_order (cases : List (SelectCase R)) (hcases : cases.length ≤ 64)
    {run : SelectRun R W} (hrun : Reaches (SelectRun.poll cases) anyStep SelectRun.new run) :
    OncePolled run.rounds.flatten ∧
    (∀ k, k + 1 < run.rounds.length → firstMatch k cases = .pending) ∧
    (∀ k, k + 1 = run.rounds.length → run.answer = firstMatch k cases) ∧
    ∀ context run', run.poll cases context = some run' → run'.answer = .pending →
      ∃ polls, run'.rounds = run.rounds ++ [polls] ∧
        ((∃ c ∈ cases, unfinished c run'.rounds.length = true) →
          ∃ p ∈ polls, p.context = context ∧ p.ready = false ∧
            ∃ c, cases[p.case]? = some c ∧ unfinished c run'.rounds.length = true) := by
  have h : RunOk cases run :=
    hrun.invariant (runOk_new cases) fun _ _ _ hok _ hpoll => hok.poll hcases hpoll
  refine ⟨h.once, h.before, h.answer, fun context run' hpoll hnext => ?_⟩
  obtain ⟨hpending, rfl⟩ := poll_cases hpoll
  have hspec := pollCases_spec context run.rounds.length cases 0 run.state (by omega)
    (h.cases_ok hpending)
  refine ⟨_, rfl, ?_⟩
  rintro ⟨c, hc, hopen⟩
  rw [List.length_append] at hopen ⊢
  obtain ⟨j, hj⟩ := List.mem_iff_getElem?.mp hc
  refine ⟨_, (hspec.waiting hnext j).mpr ⟨Nat.zero_le j, c, hj, hopen⟩, rfl, rfl, c, hj, hopen⟩

end Run

/-- The pattern of the first case refuses the value of its future, and the second future is never
ready. -/
def refusedAndPending : List (SelectCase Nat) :=
  [⟨Unit, fun _ => .ready (), fun _ => none⟩, ⟨Unit, fun _ => .pending, fun _ => some 7⟩]

theorem select_in_order_two :
    ∃ run : SelectRun Nat Nat, SelectRun.new.poll refusedAndPending 5 = some run ∧
      run.answer = .pending ∧
      ∃ p ∈ run.rounds.flatten, p.context = 5 ∧ p.ready = false := by
  refine ⟨_, rfl, rfl, ?_⟩
  obtain ⟨polls, hrounds, hwaits⟩ :=
    (select_in_order refusedAndPending (by decide) .refl).2.2.2 5 _ rfl rfl
  obtain ⟨p, hp, hcontext, hready, -⟩ := hwaits ⟨_, .tail _ (.head _), rfl⟩
  refine ⟨p, ?_, hcontext, hready⟩
  rw [hrounds]
  exact List.mem_flatten_of_mem (List.mem_append_right _ (List.mem_singleton_self _)) hp

/-- One case whose pattern refuses the value of its future. -/
def refused : List (SelectCase Nat) := [⟨Unit, fun _ => .ready (), fun _ => none⟩]

/-- The only future has finished, and `select!` returns `Pending` in this round and polls nobody in
the next one. -/
theorem select_waits_for_nobody :
    ∃ run run' : SelectRun Nat Nat,
      SelectRun.new.poll refused 5 = some run ∧ run.answer = .pending ∧
      run.rounds = [[⟨0, 5, true⟩]] ∧
      run.poll refused 6 = some run' ∧ run'.answer = .pending ∧
      run'.rounds = [[⟨0, 5, true⟩], []] :=
  ⟨_, _, rfl, rfl, rfl, rfl, rfl, rfl⟩

end Kyron.Proofs.Futures
