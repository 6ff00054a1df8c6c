import TypedArrays.Kind
import TypedArrays.Status
import TypedArrays.Text

/-! Faults: operands or arguments that an operation refuses before it does anything.

Each fault has a message, a detailed text that also shows its data, and a status: the short code
that callers outside the library receive. -/

namespace TypedArrays

/-- Why an operation refused its operands or arguments. -/
inductive Fault where
  | invalidStep (step : Int)
  | shapeMismatch (lhs rhs : Nat × Nat)
  | lengthMismatch (lhs rhs : Nat)
  | kindMismatch (expected found : Kind)
  | unsupportedKind (kind : Kind)
  | unknownKind (tag : Int)
  | negativeSize (size : Int)
deriving DecidableEq

namespace Fault

def status : Fault → Status
  | invalidStep _ => .invalidStep
  | shapeMismatch _ _ => .shapeMismatch
  | lengthMismatch _ _ => .lengthMismatch
  | kindMismatch _ _ => .kindMismatch
  | unsupportedKind _ => .unsupportedKind
  | unknownKind _ => .unknownKind
  | negativeSize _ => .negativeSize

theorem status_ne_ok (f : Fault) : f.status ≠ .ok := by
  cases f <;> exact Status.noConfusion

def message : Fault → String
  | invalidStep step => "Interval step must be at least 1, got " ++ toString step ++ "."
  | shapeMismatch _ _ => "Matrices are not the same size."
  | lengthMismatch _ _ => "Vectors are not the same size."
  | kindMismatch expected found =>
    "Expected elements of kind " ++ expected.name ++ ", found " ++ found.name ++ "."
  | unsupportedKind kind => "Operation is not supported for elements of kind " ++ kind.name ++ "."
  | unknownKind tag => "Unknown element kind tag " ++ toString tag ++ "."
  | negativeSize size => "Container size must not be negative, got " ++ toString size ++ "."

/-- The data of a fault by name. -/
def fields : Fault → List (String × String)
  | invalidStep step => [("step", toString step)]
  | shapeMismatch lhs rhs => [("lhs", pairText lhs), ("rhs", pairText rhs)]
  | lengthMismatch lhs rhs => [("lhs", toString lhs), ("rhs", toString rhs)]
  | kindMismatch expected found => [("expected", expected.title), ("found", found.title)]
  | unsupportedKind kind => [("kind", kind.title)]
  | unknownKind tag => [("type_id", toString tag)]
  | negativeSize size => [("size", toString size)]

/-- The detailed text of a fault, which shows its data. -/
def detail (f : Fault) : String := recordText f.status.title f.fields

end Fault

end TypedArrays
