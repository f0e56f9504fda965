import Kyron.Proofs.Scheduler.Turns

/-!
# `Kyron.Proofs.Scheduler.IoAccess`: somebody waits for IO

A worker that parks tries to get the IO driver and falls back to its condition variable when
somebody else has it. That somebody may only poll the driver for a moment, or may be on its way
out of the IO wait. It is then not on its condition variable. Before it gets there it has to park
itself, and then it tries again. So there is always a worker that has not chosen its condition
variable (`IoOk.free`), and when all workers are blocked it is the one that waits for IO.
`io_driver_not_orphaned` is the result.
-/

set_option autoImplicit false

namespace Kyron.Proofs.Scheduler

open Kyron.Lib
open Kyron.Scheduler

variable {n : Nat} {K O : Type}

/-- What holds of the access to the IO driver in every state. -/
structure IoOk (s : AsyncWorkers n K O) : Prop where
  holder : ∀ w, s.ioAccess = some w → mayHoldIo (s.loop w).pc = true
  held : ∀ w, mustHoldIo (s.loop w).pc = true → s.ioAccess = some w
  free : ∃ w, onCv (s.loop w).pc = false

theorem ioOk_new (hn : 0 < n) (localCapacity globalCapacity : Nat) :
    IoOk (AsyncWorkers.new localCapacity globalCapacity : AsyncWorkers n K O) where
  holder := nofun
  held := nofun
  free := ⟨⟨0, hn⟩, rfl⟩

variable {s s' : AsyncWorkers n K O} {w : Fin n}

theorem onCv_of_mayHoldIo {pc : AsyncPc n K} (h : mayHoldIo pc = true) : onCv pc = false := by
  cases pc with
  | preStage mode | blocked mode =>
      cases mode with
      | io => rfl
      | cv | cvTimeout => cases h
  | check timed | sleep timed => cases h
  | _ => rfl

/-- The facts about the worker that moves give those about all. -/
theorem IoOk.moves (h : IoOk s) (hloop : ∀ w', w' ≠ w → s'.loop w' = s.loop w')
    (hholder : s'.ioAccess = some w → mayHoldIo (s'.loop w).pc = true)
    (hheld : mustHoldIo (s'.loop w).pc = true → s'.ioAccess = some w)
    (hothers : ∀ w', w' ≠ w → (s'.ioAccess = some w' ↔ s.ioAccess = some w'))
    (hfree : ∃ w, onCv (s'.loop w).pc = false) : IoOk s' where
  holder := by
    intro w'
    by_cases hw : w' = w
    · subst hw
      exact hholder
    · rw [hothers w' hw, hloop w' hw]
      exact h.holder w'
  held := by
    intro w'
    by_cases hw : w' = w
    · subst hw
      exact hheld
    · rw [hothers w' hw, hloop w' hw]
      exact h.held w'
  free := hfree

theorem IoOk.turn (h : IoOk s) (hturn : AsyncTurn s s' w) : IoOk s' := by
  cases hturn.io with
  | keeps hmay hmust hcv hio =>
      refine h.moves hturn.loop ?_ ?_ (fun _ _ => by rw [hio]) ?_
      · rw [hio]
        exact fun hself => hmay (h.holder w hself)
      · rw [hio]
        exact fun hself => h.held w (hmust hself)
      · obtain ⟨v, hv⟩ := h.free
        refine ⟨v, ?_⟩
        by_cases heq : v = w
        · subst heq
          exact Bool.eq_false_iff.mpr fun hon => Bool.eq_false_iff.mp hv (hcv hon)
        · rwa [hturn.loop v heq]
  | takes hfree hio hmay hcv =>
      refine h.moves hturn.loop (fun _ => hmay) (fun _ => hio) ?_ ⟨w, hcv⟩
      intro w' hw
      rw [hfree, hio]
      exact iff_of_false (fun heq => hw (Option.some.inj heq).symm) nofun
  | misses hbefore htaken hmust hio =>
      -- Who holds the access is not on its condition variable, and it is another worker.
      obtain ⟨v, hv⟩ := Option.ne_none_iff_exists'.mp htaken
      have hmay := h.holder v hv
      have hself : s.ioAccess ≠ some w := by
        intro heq
        have hpark := h.holder w heq
        rw [hbefore] at hpark
        cases hpark
      have hvw : v ≠ w := by
        rintro rfl
        exact hself hv
      refine h.moves hturn.loop ?_ ?_ (fun _ _ => by rw [hio]) ⟨v, ?_⟩
      · rw [hio]
        exact fun heq => absurd heq hself
      · rw [hmust]
        exact nofun
      · rw [hturn.loop v hvw]
        exact onCv_of_mayHoldIo hmay
  | drops hmust hcv hio =>
      refine h.moves hturn.loop ?_ ?_ ?_ ⟨w, hcv⟩
      · rw [hio]
        split
        · exact nofun
        · rename_i hne
          exact fun heq => absurd heq hne
      · rw [hmust]
        exact nofun
      · intro w' hw
        rw [hio]
        split
        · rename_i heq
          rw [heq]
          exact iff_of_false nofun fun hsome => hw (Option.some.inj hsome).symm
        · exact Iff.rfl

variable [DecidableEq O]

theorem IoOk.step (h : IoOk s) {a : AsyncAction n K O} (hstep : s.step a = some s') : IoOk s' := by
  cases ha : turnOf a with
  | some w => exact h.turn (step_turn ha hstep)
  | none =>
      obtain ⟨hloop, hio, -⟩ := step_outside ha hstep
      constructor
      · rw [hio, hloop]
        exact h.holder
      · rw [hio, hloop]
        exact h.held
      · rw [hloop]
        exact h.free

/-- In every state of every run in which all workers are blocked in `park`, exactly one of them
waits for IO, and it holds the access to the IO driver. -/
theorem io_driver_not_orphaned (hn : 0 < n) (localCapacity globalCapacity : Nat)
    (hrun : Reaches AsyncWorkers.step anyStep (AsyncWorkers.new localCapacity globalCapacity) s)
    (hblocked : ∀ w, ∃ mode, (s.loop w).pc = .blocked mode) :
    ∃ w, (s.loop w).pc = .blocked .io ∧ s.ioAccess = some w ∧
      ∀ w', (s.loop w').pc = .blocked .io → w' = w := by
  have hok : IoOk s := by
    refine hrun.invariant (ioOk_new hn localCapacity globalCapacity) ?_
    intro s a s' hok _ hstep
    exact hok.step hstep
  have hheld : ∀ w, (s.loop w).pc = .blocked .io → s.ioAccess = some w := by
    intro w hpc
    exact hok.held w (by rw [hpc]; rfl)
  obtain ⟨w, hw⟩ := hok.free
  obtain ⟨mode, hpc⟩ := hblocked w
  rw [hpc] at hw
  cases mode with
  | cv | cvTimeout => cases hw
  | io =>
      refine ⟨w, hpc, hheld w hpc, ?_⟩
      intro w' hpc'
      have heq := hheld w' hpc'
      rw [hheld w hpc] at heq
      exact (Option.some.inj heq).symm

/-- One of two workers finds no work and goes to sleep, up to its state byte. -/
def lieDownOfTwo (w : Fin 2) : List (AsyncAction 2 Nat (Fin 1)) :=
  List.replicate 4 (AsyncAction.advance w) ++ [AsyncAction.search w 0, .steal w 0, .steal w 0] ++
    List.replicate 13 (AsyncAction.advance w) ++ [AsyncAction.park w .forever, .advance w]

/-- The second worker finds the driver taken and sleeps on its condition variable. -/
theorem io_driver_not_orphaned_two :
    ∃ s : AsyncWorkers 2 Nat (Fin 1),
      Reaches AsyncWorkers.step anyStep (AsyncWorkers.new 4 4) s ∧
      (s.loop 1).pc = .blocked .cv ∧
      ∃ w, (s.loop w).pc = .blocked .io ∧ s.ioAccess = some w ∧
        ∀ w', (s.loop w').pc = .blocked .io → w' = w := by
  have hexists : ∃ s : AsyncWorkers 2 Nat (Fin 1),
      Reaches AsyncWorkers.step anyStep (AsyncWorkers.new 4 4) s ∧
        (s.loop 0).pc = .blocked .io ∧ (s.loop 1).pc = .blocked .cv :=
    exists_reaches (lieDownOfTwo 0 ++ lieDownOfTwo 1 ++
      [AsyncAction.advance 1, .advance 1]) (by decide +kernel)
  obtain ⟨s, hrun, hfirst, hsecond⟩ := hexists
  refine ⟨s, hrun, hsecond, io_driver_not_orphaned (by decide) 4 4 hrun ?_⟩
  exact Fin.forall_fin_two.mpr ⟨⟨.io, hfirst⟩, ⟨.cv, hsecond⟩⟩

end Kyron.Proofs.Scheduler
