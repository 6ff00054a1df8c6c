/-! Statuses: outcomes of checks as callers outside the library see them, each with a code and a text. -/

namespace TypedArrays

/-- The outcome of a check as callers outside the library see it. -/
inductive Status where
  | ok
  | invalidStep
  | shapeMismatch
  | lengthMismatch
  | kindMismatch
  | unsupportedKind
  | unknownKind
  | negativeSize
deriving DecidableEq

namespace Status

/-- All statuses, by ascending code. -/
def all : List Status :=
  [ok, invalidStep, shapeMismatch, lengthMismatch, kindMismatch, unsupportedKind, unknownKind, negativeSize]

def code : Status → Int
  | ok => 0
  | invalidStep => 1
  | shapeMismatch => 2
  | lengthMismatch => 3
  | kindMismatch => 4
  | unsupportedKind => 5
  | unknownKind => 6
  | negativeSize => 7

def ofCode? (code : Int) : Option Status := all.find? (·.code = code)

def title : Status → String
  | ok => "Ok"
  | invalidStep => "InvalidStep"
  | shapeMismatch => "ShapeMismatch"
  | lengthMismatch => "LengthMismatch"
  | kindMismatch => "KindMismatch"
  | unsupportedKind => "UnsupportedKind"
  | unknownKind => "UnknownKind"
  | negativeSize => "NegativeSize"

def message : Status → String
  | ok => "No error."
  | invalidStep => "Interval step must be at least 1."
  | shapeMismatch => "Matrices are not the same size."
  | lengthMismatch => "Vectors are not the same size."
  | kindMismatch => "Operand element kinds do not match."
  | unsupportedKind => "Operation is not supported for this element kind."
  | unknownKind => "Unknown element kind."
  | negativeSize => "Container size must not be negative."

/-- The message of a code, which need not be the code of a status. -/
def messageOf (code : Int) : String :=
  match ofCode? code with
  | some status => status.message
  | none => "Unknown runtime error."

end Status

end TypedArrays
