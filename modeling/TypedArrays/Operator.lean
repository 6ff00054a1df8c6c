import TypedArrays.Kind
import TypedArrays.Single.Arithmetic
import TypedArrays.Single.Power
import TypedArrays.Trap

/-! Operators and their meaning on single elements.

Each type of numbers supplies its own operations, and an arithmetic operator picks one of them. -/

namespace TypedArrays

/-! ### Arithmetic -/

/-- The two-operand operators on numbers. -/
inductive Arithmetic where
  | add
  | subtract
  | multiply
  | divide
  | modulus
  | power
deriving DecidableEq

namespace Arithmetic

def all : List Arithmetic := [add, subtract, multiply, divide, modulus, power]

def name : Arithmetic → String
  | add => "add"
  | subtract => "subtract"
  | multiply => "multiply"
  | divide => "divide"
  | modulus => "modulus"
  | power => "power"

/-- The name as detailed texts write it. -/
def title : Arithmetic → String
  | add => "Add"
  | subtract => "Subtract"
  | multiply => "Multiply"
  | divide => "Divide"
  | modulus => "Modulus"
  | power => "Power"

end Arithmetic

/-- The operations that a type of numbers supplies for its elements. -/
structure Scalar (α : Type) where
  add : α → α → Except Trap α
  subtract : α → α → Except Trap α
  multiply : α → α → Except Trap α
  divide : α → α → Except Trap α
  modulus : α → α → Except Trap α
  power : α → α → Except Trap α
  negate : α → α

/-- Exact results are wrapped, undefined ones trap. -/
def Word.scalar {w : Width} : Scalar (Word w) where
  add a b := .ok (a + b)
  subtract a b := .ok (a - b)
  multiply a b := .ok (a * b)
  divide a b := (a.quotient? b).elim (.error .divideByZero) .ok
  modulus a b := (a.remainder? b).elim (.error .remainderByZero) .ok
  power a b := (a.power? b).elim (.error .divideByZero) .ok
  negate a := -a

/-- No operation on singles traps. -/
def Single.scalar : Scalar Single where
  add a b := .ok (a + b)
  subtract a b := .ok (a - b)
  multiply a b := .ok (a * b)
  divide a b := .ok (a / b)
  modulus a b := .ok (a % b)
  power a b := .ok (a.pow b)
  negate := Single.neg

namespace Arithmetic

/-- The operator on two elements. -/
def apply {α : Type} (s : Scalar α) (a b : α) : Arithmetic → Except Trap α
  | add => s.add a b
  | subtract => s.subtract a b
  | multiply => s.multiply a b
  | divide => s.divide a b
  | modulus => s.modulus a b
  | power => s.power a b

/-- The operator on words. -/
def onWords {w : Width} (a b : Word w) (op : Arithmetic) : Except Trap (Word w) := op.apply Word.scalar a b

end Arithmetic

namespace Numeric

/-- The operations on elements of a numeric kind. -/
def scalar : (n : Numeric) → Scalar n.Carrier
  | integer => (Word.scalar : Scalar (Word .w32))
  | real => Single.scalar

/-- One arithmetic operator on two elements of a numeric kind. -/
def apply (n : Numeric) (op : Arithmetic) (a b : n.Carrier) : Except Trap n.Carrier := op.apply n.scalar a b

/-- The negation of an element of a numeric kind. -/
def negate (n : Numeric) : n.Carrier → n.Carrier := n.scalar.negate

end Numeric

/-! ### Logic -/

/-- The two-operand operators on truth values. -/
inductive Logic where
  | or
  | xor
  | and
deriving DecidableEq

namespace Logic

def all : List Logic := [or, xor, and]

def name : Logic → String
  | or => "or"
  | xor => "xor"
  | and => "and"

/-- The name as detailed texts write it. -/
def title : Logic → String
  | or => "Or"
  | xor => "Xor"
  | and => "And"

/-- The byte of a truth value. -/
def byte (b : Bool) : UInt8 := if b then 1 else 0

/-- The operator on bytes. A byte is true if it is not zero, except that `xor` looks at the lowest
bits alone. Results are zero or one. -/
def apply (a b : UInt8) : Logic → UInt8
  | or => byte (a != 0 || b != 0)
  | xor => (a ^^^ b) &&& 1
  | and => byte (a != 0 && b != 0)

/-- The byte that is one exactly for the byte zero. -/
def negate (a : UInt8) : UInt8 := byte (a == 0)

end Logic

end TypedArrays
