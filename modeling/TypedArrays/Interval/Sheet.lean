import TypedArrays.Interval
import TypedArrays.Names

/-! Sheets of named intervals, worked on one command at a time.

A command names its operands and the place of its result. A command that meets a name without an
interval, a fault or a trap changes nothing. -/

namespace TypedArrays.Interval

variable {w : Width}

/-- One piece of work on a sheet. -/
inductive Command (w : Width) where
  | put (slot : String) (value : Interval w)
  | combine (op : Operator) (slot lhs rhs : String)
  | negate (slot lhs : String)
  | equal (lhs rhs : String)
  | notEqual (lhs rhs : String)
  /-- The first words of an interval in steps, or one by one without a step. -/
  | walk (lhs : String) (step : Option (Word w)) (take : Nat)
  | stepRange (width_eq : w = .w32) (lhs : String) (step : Word w)

/-- What a command yields. -/
inductive Answer (w : Width) where
  | interval (value : Interval w)
  | truth (value : Bool)
  /-- The length of a walk, its first words and how many are left after them. -/
  | walked (length : Nat) (values : Array (Word w)) (left : Nat)
  | vector (value : Vector)
  | halted (cause : Halt)
  | missing (name : String)

/-- Intervals under names. -/
abbrev Sheet (w : Width) := Names (Interval w)

namespace Sheet

/-- Looks a name up, or answers that it is missing. -/
def find (sheet : Sheet w) (name : String) : Except (Answer w) (Interval w) :=
  (sheet.get? name).elim (.error (.missing name)) .ok

/-- What a command yields, and the interval it stores, if any. -/
def evaluate (sheet : Sheet w) : Command w → Except (Answer w) (Answer w × Option (String × Interval w))
  | .put slot value => return (.interval value, some (slot, value))
  | .combine op slot lhs rhs => do
    let a ← sheet.find lhs
    let b ← sheet.find rhs
    let value ← (op.apply a b).mapError (.halted ∘ .trap)
    return (.interval value, some (slot, value))
  | .negate slot lhs => do
    let a ← sheet.find lhs
    return (.interval (-a), some (slot, -a))
  | .equal lhs rhs => do
    let a ← sheet.find lhs
    let b ← sheet.find rhs
    return (.truth (a == b), none)
  | .notEqual lhs rhs => do
    let a ← sheet.find lhs
    let b ← sheet.find rhs
    return (.truth (a != b), none)
  | .walk lhs step take => do
    let a ← sheet.find lhs
    let p ← match step with
      | some step => (a.stepped step).mapError (.halted ∘ .fault)
      | none => pure a.words
    let (values, rest) := p.take take
    return (.walked p.remaining values rest.remaining, none)
  | .stepRange width_eq lhs step => do
    let a ← sheet.find lhs
    let value ← ((width_eq ▸ a).stepRange (width_eq ▸ step)).mapError .halted
    return (.vector value, none)

/-- One command: its answer and the sheet after it. -/
def step (sheet : Sheet w) (command : Command w) : Answer w × Sheet w :=
  match sheet.evaluate command with
  | .ok (answer, some (slot, value)) => (answer, sheet.set slot (some value))
  | .ok (answer, none) => (answer, sheet)
  | .error answer => (answer, sheet)

/-- The answers to a list of commands. -/
def run (sheet : Sheet w) : List (Command w) → List (Answer w)
  | [] => []
  | command :: rest =>
    let (answer, after) := sheet.step command
    answer :: run after rest

end Sheet

end TypedArrays.Interval
