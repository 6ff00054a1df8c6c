import TypedArrays.Matrix
import TypedArrays.Vector

/-! Vectors and matrices as one family, indexed by form.

What the two forms have in common is stated once, for any form. -/

namespace TypedArrays

/-- Whether a container is a vector or a matrix. -/
inductive Form where
  | vector
  | matrix
deriving DecidableEq

namespace Form

def name : Form → String
  | vector => "vector"
  | matrix => "matrix"

/-- The containers of a form. -/
@[reducible] def Carrier : Form → Type
  | vector => Vector
  | matrix => Matrix

def storage : (f : Form) → f.Carrier → Storage
  | vector => Vector.storage
  | matrix => Matrix.storage

/-- The container with other storage. -/
def withStorage : (f : Form) → f.Carrier → Storage → f.Carrier
  | vector => fun _ s => ⟨s⟩
  | matrix => Matrix.withStorage

def kind (f : Form) (c : f.Carrier) : Kind := (f.storage c).kind

/-- Refuses two containers of different sizes or shapes. -/
def checkSame : (f : Form) → f.Carrier → f.Carrier → Except Fault Unit
  | vector => Vector.checkSameSize
  | matrix => Matrix.checkSameShape

/-- Equality of containers as values. -/
def same : (f : Form) → f.Carrier → f.Carrier → Bool
  | vector => Vector.same
  | matrix => Matrix.same

def text : (f : Form) → f.Carrier → String
  | vector => Vector.text
  | matrix => Matrix.text

def detail? : (f : Form) → f.Carrier → Option String
  | vector => Vector.detail?
  | matrix => Matrix.detail?

/-- Elementwise arithmetic at a numeric kind, or without one at the kind of the left operand. -/
def arithmetic : (f : Form) → Option Numeric → Arithmetic → (out lhs rhs : f.Carrier) → Written f.Carrier
  | vector, some n => Vector.arithmetic n
  | vector, none => Vector.arithmeticByKind
  | matrix, some n => Matrix.arithmetic n
  | matrix, none => Matrix.arithmeticByKind

/-- Elementwise negation at a numeric kind, or without one at the kind of the operand. -/
def negate : (f : Form) → Option Numeric → (out lhs : f.Carrier) → Written f.Carrier
  | vector, some n => Vector.negate n
  | vector, none => Vector.negateByKind
  | matrix, some n => Matrix.negate n
  | matrix, none => Matrix.negateByKind

end Form

/-- A vector or a matrix. -/
structure Container where
  form : Form
  value : form.Carrier

namespace Container

def ofVector (v : Vector) : Container := ⟨.vector, v⟩

def ofMatrix (m : Matrix) : Container := ⟨.matrix, m⟩

def storage (c : Container) : Storage := c.form.storage c.value

def withStorage (c : Container) (s : Storage) : Container := ⟨c.form, c.form.withStorage c.value s⟩

def kind (c : Container) : Kind := c.storage.kind

/-- The container as one of a given form. -/
def as? (c : Container) (f : Form) : Option f.Carrier :=
  if h : c.form = f then some (h ▸ c.value) else none

end Container

end TypedArrays
