import Kyron.Futures.FutureState

/-!
# `Kyron.Futures.Select`: the future of `select!`

The model of the main logic of `select!` in `macros/select.rs`. The macro makes one block for each
case, in the order in which they are written, and the blocks are run by every poll of the future. A
bit of `disabled_cases` says that the future of a case has returned a value that its pattern
refused. A `usize` has 64 bits.

What the futures do is a script: the answer of each of their polls. A poll is noted with the number
of its case, its context and whether it returned `Ready`.
-/

set_option autoImplicit false

namespace Kyron.Futures

/-- A case: what its future returns, poll by poll, and its pattern with the block behind it. The
pattern refuses a value where `arm` is `none`. -/
structure SelectCase (R : Type) where
  Out : Type
  script : Nat → Poll Out
  arm : Out → Option R

/-- A poll of the future of a case. -/
structure CasePoll (W : Type) where
  case : Nat
  context : W
  ready : Bool
  deriving DecidableEq, Repr

/-- What the future of `select!` keeps: the mask, and how often the futures were polled. -/
structure SelectState where
  disabledCases : BitVec 64
  polled : Nat → Nat

/-- What a poll of the future of `select!` returns and has done. -/
structure SelectRound (R W : Type) where
  answer : Poll R
  state : SelectState
  polls : List (CasePoll W)

namespace SelectState

def new : SelectState where
  disabledCases := 0
  polled := fun _ => 0

/-- The future of a case is polled. -/
def count (s : SelectState) (caseIndex : Nat) : SelectState :=
  { s with polled := fun i => if i = caseIndex then s.polled i + 1 else s.polled i }

def disable (s : SelectState) (caseMask : BitVec 64) : SelectState :=
  { s with disabledCases := s.disabledCases ||| caseMask }

end SelectState

variable {R W : Type}

/-- A poll before the others. -/
def SelectRound.after (round : SelectRound R W) (poll : CasePoll W) : SelectRound R W :=
  { round with polls := poll :: round.polls }

/-- The blocks of the cases, from the one with the number `caseIndex` on. -/
def pollCases (context : W) : Nat → List (SelectCase R) → SelectState → SelectRound R W
  | _, [], s => { answer := .pending, state := s, polls := [] }
  | caseIndex, c :: cases, s =>
      let caseMask : BitVec 64 := 1#64 <<< caseIndex
      if s.disabledCases &&& caseMask = 0#64 then
        match c.script (s.polled caseIndex) with
        | .ready result =>
            match c.arm result with
            | some value =>
                { answer := .ready value
                  state := s.count caseIndex
                  polls := [⟨caseIndex, context, true⟩] }
            | none =>
                (pollCases context (caseIndex + 1) cases
                  ((s.count caseIndex).disable caseMask)).after ⟨caseIndex, context, true⟩
        | .pending =>
            (pollCases context (caseIndex + 1) cases (s.count caseIndex)).after
              ⟨caseIndex, context, false⟩
      else
        pollCases context (caseIndex + 1) cases s

/-- An execution of `select!`: the polls of each of its rounds, and its result. -/
structure SelectRun (R W : Type) where
  state : SelectState
  rounds : List (List (CasePoll W))
  answer : Poll R

namespace SelectRun

def new : SelectRun R W where
  state := .new
  rounds := []
  answer := .pending

/-- The future of `select!` is polled. It is awaited, so not after it has returned `Ready`. -/
def poll (cases : List (SelectCase R)) (run : SelectRun R W) (context : W) :
    Option (SelectRun R W) :=
  match run.answer with
  | .ready _ => none
  | .pending =>
      let round := pollCases context 0 cases run.state
      some
        { state := round.state
          rounds := run.rounds ++ [round.polls]
          answer := round.answer }

end SelectRun

end Kyron.Futures
