/-!
# `Kyron.Lib.Refinement`: two machines that answer alike

A machine is a function `step` from a state and an operation to the next state and an answer. `run`
makes a list of operations. `Along` says that a condition on the operations holds at each step of a
run.

* `run_refines`: if related states answer alike and stay related in one step, as far as the
  condition holds, then they do so in whole runs.
-/

set_option autoImplicit false

namespace Kyron.Lib

variable {S T A R : Type}

/-- The operations one after the other, and their answers. -/
def run (step : S → A → S × R) : S → List A → S × List R
  | s, [] => (s, [])
  | s, a :: as => ((run step (step s a).1 as).1, (step s a).2 :: (run step (step s a).1 as).2)

/-- The condition holds for each operation, in the state in which it is made. -/
def Along (step : S → A → S × R) (ok : S → A → Prop) : S → List A → Prop
  | _, [] => True
  | s, a :: as => ok s a ∧ Along step ok (step s a).1 as

theorem Along.and {step : S → A → S × R} {ok ok' : S → A → Prop} {as : List A} {s : S}
    (h : Along step ok s as) (h' : Along step ok' s as) :
    Along step (fun s a => ok s a ∧ ok' s a) s as := by
  induction as generalizing s with
  | nil => trivial
  | cons a as ih => exact ⟨⟨h.1, h'.1⟩, ih h.2 h'.2⟩

theorem run_refines {step : S → A → S × R} {spec : T → A → T × R} {ok : T → A → Prop}
    {rel : S → T → Prop}
    (hstep : ∀ s t a, rel s t → ok t a →
      rel (step s a).1 (spec t a).1 ∧ (step s a).2 = (spec t a).2)
    (as : List A) {s : S} {t : T} (hrel : rel s t) (hok : Along spec ok t as) :
    rel (run step s as).1 (run spec t as).1 ∧ (run step s as).2 = (run spec t as).2 := by
  induction as generalizing s t with
  | nil => exact ⟨hrel, rfl⟩
  | cons a as ih =>
      obtain ⟨hrel', hanswer⟩ := hstep s t a hrel hok.1
      obtain ⟨hend, hanswers⟩ := ih hrel' hok.2
      refine ⟨hend, ?_⟩
      rw [run, run, hanswer, hanswers]

end Kyron.Lib
