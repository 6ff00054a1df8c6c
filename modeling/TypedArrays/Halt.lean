import TypedArrays.Fault
import TypedArrays.Trap

/-! How operations on containers end.

An operation refuses its operands with a fault, before it touches its output, or it stops part way
with a trap, or it completes. `Written` keeps the output next to the reason for stopping, since a
trap leaves what was written before it. -/

namespace TypedArrays

/-- Why an operation did not complete. -/
inductive Halt where
  | fault (cause : Fault)
  | trap (cause : Trap)
deriving DecidableEq

/-- The output of an operation and, if it did not complete, the reason. -/
structure Written (α : Type) where
  out : α
  halt : Option Halt

namespace Written

/-- The output as it was before the call, next to the fault that refused the call. -/
def refused {α : Type} (out : α) (cause : Fault) : Written α := ⟨out, some (.fault cause)⟩

def map {α β : Type} (f : α → β) (w : Written α) : Written β := ⟨f w.out, w.halt⟩

end Written

end TypedArrays
