/-! Traps: conditions that stop a computation part way, each with its text. -/

namespace TypedArrays

/-- The loops that combine one operand buffer with an output buffer. -/
inductive UnaryLoop where
  | negate
  | not
  | scalar
deriving DecidableEq

namespace UnaryLoop

def name : UnaryLoop → String
  | negate => "negate_into"
  | not => "not_into"
  | scalar => "scalar_into"

end UnaryLoop

/-- Why a computation stopped part way. -/
inductive Trap where
  /-- Division by zero, also by way of zero raised to a negative power. -/
  | divideByZero
  /-- A quotient past the range: that of the least integer by minus one. -/
  | divideOverflow
  /-- A remainder with the divisor zero. -/
  | remainderByZero
  /-- A product of two dimensions past the largest size. -/
  | multiplyOverflow
  /-- A request for more bytes than a buffer may have. -/
  | capacityOverflow
  /-- Output and operand buffers of a two-operand loop differ in length. -/
  | binaryLengths (out lhs rhs : Nat)
  /-- Output and operand buffers of a one-operand loop differ in length. -/
  | unaryLengths (loop : UnaryLoop) (out lhs : Nat)
deriving DecidableEq

namespace Trap

def message : Trap → String
  | divideByZero => "attempt to divide by zero"
  | divideOverflow => "attempt to divide with overflow"
  | remainderByZero => "attempt to calculate the remainder with a divisor of zero"
  | multiplyOverflow => "attempt to multiply with overflow"
  | capacityOverflow => "capacity overflow"
  | binaryLengths out lhs rhs =>
    "called `binary_into` with buffers of different lengths: out " ++ toString out ++
      ", lhs " ++ toString lhs ++ ", rhs " ++ toString rhs
  | unaryLengths loop out lhs =>
    "assertion `left == right` failed: called `" ++ loop.name ++
      "` with buffers of different lengths\n  left: " ++ toString out ++
      "\n right: " ++ toString lhs

end Trap

end TypedArrays
