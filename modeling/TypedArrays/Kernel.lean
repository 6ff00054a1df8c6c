import TypedArrays.Operator

/-! Loops over buffers.

A loop fills an output buffer from left to right, one lane at a time. A lane that traps ends the
loop: the lanes before it are written and the others keep what they held. -/

namespace TypedArrays

/-- The output buffer after a loop and the trap that ended it, if one did. -/
structure Sweep (α : Type) where
  out : Array α
  trap : Option Trap

namespace Kernel

variable {α β : Type}

/-- Fills the lanes of `out` from `i` on, one for each input. -/
def fill (f : β → Except Trap α) : List β → (i : Nat) → (out : Array α) → Sweep α
  | [], _, out => ⟨out, none⟩
  | input :: rest, i, out =>
    match f input with
    | .ok value => fill f rest (i + 1) (out.setIfInBounds i value)
    | .error trap => ⟨out, some trap⟩

/-- Combines two operand buffers lane by lane. -/
def binary (f : α → α → Except Trap α) (out lhs rhs : Array α) : Sweep α :=
  if lhs.size = out.size ∧ rhs.size = out.size then
    fill (fun (l, r) => f l r) (lhs.toList.zip rhs.toList) 0 out
  else ⟨out, some (.binaryLengths out.size lhs.size rhs.size)⟩

/-- Combines two operand buffers by an operator, which picks the operation of all lanes before the loop. -/
def arithmetic (s : Scalar α) (op : Arithmetic) (out lhs rhs : Array α) : Sweep α :=
  match op with
  | .add => binary s.add out lhs rhs
  | .subtract => binary s.subtract out lhs rhs
  | .multiply => binary s.multiply out lhs rhs
  | .divide => binary s.divide out lhs rhs
  | .modulus => binary s.modulus out lhs rhs
  | .power => binary s.power out lhs rhs

/-- Changes an operand buffer lane by lane. -/
def unary (loop : UnaryLoop) (f : α → α) (out lhs : Array α) : Sweep α :=
  if out.size = lhs.size then fill (fun l => .ok (f l)) lhs.toList 0 out
  else ⟨out, some (.unaryLengths loop out.size lhs.size)⟩

/-- Whether two buffers agree: as many lanes match as there are lanes. -/
def equal [BEq α] (lhs rhs : Array α) : Bool :=
  lhs.size == rhs.size && (lhs.toList.zip rhs.toList).countP (fun (l, r) => l == r) == lhs.size

def notEqual [BEq α] (lhs rhs : Array α) : Bool := !equal lhs rhs

end Kernel

end TypedArrays
