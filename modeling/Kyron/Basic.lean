import Mathlib.Logic.Function.Basic

/-!
# `Kyron.Basic`: what every part of the runtime shares

`CommonErrors` is the error enumeration of the foundation crate. Runtime code returns it
inside `Result`, and the model returns it inside `Except`.

An `assert!`, a failed index or an overflow check is not an error value in the source: it
unwinds the thread. The models keep the two apart. A fallible operation that can also panic
has the type `Except P (Except CommonErrors α)`, where `P` enumerates the panics of its
module.
-/

set_option autoImplicit false

namespace Kyron

/-- `CommonErrors` of `kyron_foundation::types`. -/
inductive CommonErrors
  | noData
  | alreadyDone
  | genericError
  | operationAborted
  | panicked
  | timeout
  | noSpaceLeft
  | notFound
  | wrongArgs
  | alreadyExists
  | notSupported
  deriving DecidableEq, Repr

end Kyron
