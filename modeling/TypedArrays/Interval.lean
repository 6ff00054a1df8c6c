import TypedArrays.Progression
import TypedArrays.Vector

/-! Intervals with word bounds.

Bounds are not required to be in order. Sums and differences combine bounds; products and quotients
take the least and the greatest of the four corner values. All values wrap at the width. -/

namespace TypedArrays

/-- Division rounded toward zero. It traps for the divisor zero, and where the quotient is past the range. -/
def Word.divide {w : Width} (x y : Word w) : Except Trap (Word w) :=
  if y.val = 0 then .error .divideByZero
  else if h : w.Fits (x.val.tdiv y.val) then .ok ⟨x.val.tdiv y.val, h⟩
  else .error .divideOverflow

/-- A lower and an upper bound. -/
structure Interval (w : Width) where
  lower : Word w
  upper : Word w
deriving DecidableEq

namespace Interval

variable {w : Width}

instance : Inhabited (Interval w) := ⟨0, 0⟩

/-- The bounds are in order. -/
def isProper (a : Interval w) : Bool := a.lower ≤ a.upper

/-- The least interval that holds four words. -/
def hull (p q r s : Word w) : Interval w := ⟨min (min p q) (min r s), max (max p q) (max r s)⟩

def add (a b : Interval w) : Interval w := ⟨a.lower + b.lower, a.upper + b.upper⟩

def sub (a b : Interval w) : Interval w := ⟨a.lower - b.upper, a.upper - b.lower⟩

/-- Negates both bounds and leaves them in place. -/
def neg (a : Interval w) : Interval w := ⟨-a.lower, -a.upper⟩

def mul (a b : Interval w) : Interval w :=
  hull (a.lower * b.lower) (a.lower * b.upper) (a.upper * b.lower) (a.upper * b.upper)

/-- Division of a bound by a bound. By minus one it is negation, which wraps and does not trap. -/
def corner (x y : Word w) : Except Trap (Word w) := if y = -1 then .ok (-x) else x.divide y

/-- Defined unless a bound of the divisor is zero. -/
def div (a b : Interval w) : Except Trap (Interval w) := do
  let p ← corner a.lower b.lower
  let q ← corner a.lower b.upper
  let r ← corner a.upper b.lower
  let s ← corner a.upper b.upper
  return hull p q r s

instance : Add (Interval w) := ⟨add⟩

instance : Sub (Interval w) := ⟨sub⟩

instance : Mul (Interval w) := ⟨mul⟩

instance : Neg (Interval w) := ⟨neg⟩

def text (a : Interval w) : String := "[" ++ toString a.lower ++ ", " ++ toString a.upper ++ "]"

def detail (a : Interval w) : String :=
  recordText "Interval" [("lower", toString a.lower), ("upper", toString a.upper)]

/-- The two-operand operators on intervals. -/
inductive Operator where
  | add
  | subtract
  | multiply
  | divide
deriving DecidableEq

namespace Operator

def all : List Operator := [add, subtract, multiply, divide]

def name : Operator → String
  | add => "add"
  | subtract => "subtract"
  | multiply => "multiply"
  | divide => "divide"

def apply (a b : Interval w) : Operator → Except Trap (Interval w)
  | add => .ok (a + b)
  | subtract => .ok (a - b)
  | multiply => .ok (a * b)
  | divide => a.div b

end Operator

/-! ### Stepping through an interval -/

/-- The words from the lower bound to the upper in steps, which must be at least one. -/
def stepped (a : Interval w) (step : Word w) : Except Fault (Progression w) :=
  if step.val < 1 then .error (.invalidStep step.val) else .ok (.ofBounds a.lower a.upper step)

theorem stepped_of_lt {a : Interval w} {step : Word w} (h : step.val < 1) :
    a.stepped step = .error (.invalidStep step.val) := if_pos h

theorem stepped_of_le {a : Interval w} {step : Word w} (h : 1 ≤ step.val) :
    a.stepped step = .ok (.ofBounds a.lower a.upper step) := if_neg (by omega)

/-- The words from the lower bound to the upper. -/
def words (a : Interval w) : Progression w := .ofBounds a.lower a.upper 1

/-- The stepped words as an integer vector. -/
def stepRange (a : Interval .w32) (step : Word .w32) : Except Halt Vector := do
  let p ← (a.stepped step).mapError .fault
  if p.remaining * Kind.integer.bytes ≤ maxBytes then return .ofArray .integer p.toArray
  else throw (.trap .capacityOverflow)

end Interval

end TypedArrays
