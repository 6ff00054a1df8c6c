import TypedArrays.Storage

/-! Matrices: two-dimensional containers stored row after row, and elementwise operations on them.

The operations compare shapes where those on vectors compare sizes. -/

namespace TypedArrays

/-- A two-dimensional container; the element in row `i` and column `j` is stored at place
`i * columns + j`. -/
structure Matrix where
  rows : Nat
  columns : Nat
  storage : Storage

namespace Matrix

/-! ### Making matrices -/

/-- The number of elements of a shape. A product past the largest size traps, as in a build with
overflow checks; a build without them would wrap it around instead. -/
def sizeOf (rows columns : Nat) : Except Trap Nat :=
  if rows * columns < sizeLimit then .ok (rows * columns) else .error .multiplyOverflow

/-- A matrix of zeros. -/
def zeroed (kind : Kind) (rows columns : Nat) : Except Trap Matrix := do
  let size ← sizeOf rows columns
  return ⟨rows, columns, ← Storage.zeroed kind size⟩

/-- A matrix of zeros whose dimensions may be negative, which is a fault; rows are looked at first. -/
def allocate (kind : Kind) (rows columns : Int) : Except Halt Matrix :=
  if rows < 0 then .error (.fault (.negativeSize rows))
  else if columns < 0 then .error (.fault (.negativeSize columns))
  else (zeroed kind rows.toNat columns.toNat).mapError .trap

/-- A matrix of given elements, which must be as many as the shape has places. -/
def ofArray (kind : Kind) (rows columns : Nat) (data : Array kind.Carrier) : Except Halt Matrix := do
  let size ← (sizeOf rows columns).mapError .trap
  if data.size = size then return ⟨rows, columns, ⟨kind, data⟩⟩
  else throw (.fault (.lengthMismatch size data.size))

/-! ### Looking at matrices -/

def kind (m : Matrix) : Kind := m.storage.kind

def size (m : Matrix) : Nat := m.storage.size

def shape (m : Matrix) : Nat × Nat := (m.rows, m.columns)

/-- The place of the element in a given row and column. -/
def place (m : Matrix) (row column : Nat) : Nat := row * m.columns + column

/-- The element in a given row and column, if there is one and it is of the given kind. -/
def get? (m : Matrix) (kind : Kind) (row column : Nat) : Option kind.Carrier :=
  if row < m.rows ∧ column < m.columns then
    match m.storage.read kind with
    | .ok data => data[m.place row column]?
    | .error _ => none
  else none

def text (m : Matrix) : String :=
  "Matrix<" ++ m.kind.name ++ ">[" ++ toString m.rows ++ "x" ++ toString m.columns ++ "]"

def detail? (m : Matrix) : Option String :=
  m.storage.detail?.map fun storage =>
    recordText "Matrix" [("rows", toString m.rows), ("columns", toString m.columns), ("storage", storage)]

def same (m n : Matrix) : Bool := m.shape == n.shape && m.storage.same n.storage

/-- Refuses two matrices of different shapes. -/
def checkSameShape (m n : Matrix) : Except Fault Unit :=
  if m.shape = n.shape then .ok () else .error (.shapeMismatch m.shape n.shape)

/-- The matrix with other storage. -/
def withStorage (m : Matrix) (storage : Storage) : Matrix := ⟨m.rows, m.columns, storage⟩

/-! ### Elementwise operations -/

/-- Runs an operation on storages if the shapes of all three matrices agree. -/
def binaryWith (run : Storage → Storage → Storage → Written Storage) (out lhs rhs : Matrix) : Written Matrix :=
  match lhs.checkSameShape rhs, lhs.checkSameShape out with
  | .ok (), .ok () => (run out.storage lhs.storage rhs.storage).map out.withStorage
  | .error cause, _ => .refused out cause
  | _, .error cause => .refused out cause

/-- Runs an operation on storages if the shapes of both matrices agree. -/
def unaryWith (run : Storage → Storage → Written Storage) (out lhs : Matrix) : Written Matrix :=
  match lhs.checkSameShape out with
  | .ok () => (run out.storage lhs.storage).map out.withStorage
  | .error cause => .refused out cause

/-- Elementwise arithmetic on matrices of one numeric kind. -/
def arithmetic (n : Numeric) (op : Arithmetic) : (out lhs rhs : Matrix) → Written Matrix :=
  binaryWith (Storage.arithmetic n op)

/-- Elementwise negation on matrices of one numeric kind. -/
def negate (n : Numeric) : (out lhs : Matrix) → Written Matrix := unaryWith (Storage.negate n)

/-- Elementwise arithmetic at the kind of the left operand, which must be numeric. -/
def arithmeticByKind (op : Arithmetic) (out lhs rhs : Matrix) : Written Matrix :=
  match lhs.kind.numeric? with
  | some n => arithmetic n op out lhs rhs
  | none => .refused out (.unsupportedKind lhs.kind)

/-- Elementwise negation at the kind of the operand, which must be numeric. -/
def negateByKind (out lhs : Matrix) : Written Matrix :=
  match lhs.kind.numeric? with
  | some n => negate n out lhs
  | none => .refused out (.unsupportedKind lhs.kind)

end Matrix

end TypedArrays
