import TypedArrays.Storage

/-! Vectors: one-dimensional containers, and elementwise operations on them.

Every operation first compares the sizes of the operands, then the size of the left operand with the
size of the output, and only then looks at kinds. -/

namespace TypedArrays

/-- A one-dimensional container. -/
structure Vector where
  storage : Storage

namespace Vector

/-! ### Making vectors -/

/-- A vector of zeros. -/
def zeroed (kind : Kind) (size : Nat) : Except Trap Vector :=
  (Storage.zeroed kind size).map Vector.mk

/-- A vector of zeros whose size may be negative, which is a fault. -/
def allocate (kind : Kind) (size : Int) : Except Halt Vector :=
  if size < 0 then .error (.fault (.negativeSize size))
  else (zeroed kind size.toNat).mapError .trap

def ofArray (kind : Kind) (data : Array kind.Carrier) : Vector := ⟨⟨kind, data⟩⟩

/-- The boolean vector of a list of truth values. -/
def ofBools (values : List Bool) : Vector := ofArray .boolean (values.map Logic.byte).toArray

/-! ### Looking at vectors -/

def kind (v : Vector) : Kind := v.storage.kind

def size (v : Vector) : Nat := v.storage.size

def text (v : Vector) : String := "Vector<" ++ v.kind.name ++ ">[" ++ toString v.size ++ "]"

def detail? (v : Vector) : Option String :=
  v.storage.detail?.map fun storage => recordText "Vector" [("storage", storage)]

def same (v u : Vector) : Bool := v.storage.same u.storage

/-- Refuses two vectors of different sizes. -/
def checkSameSize (v u : Vector) : Except Fault Unit :=
  if v.size = u.size then .ok () else .error (.lengthMismatch v.size u.size)

/-! ### Elementwise operations -/

/-- Runs an operation on storages if the sizes of all three vectors agree. -/
def binaryWith (run : Storage → Storage → Storage → Written Storage) (out lhs rhs : Vector) : Written Vector :=
  match lhs.checkSameSize rhs, lhs.checkSameSize out with
  | .ok (), .ok () => (run out.storage lhs.storage rhs.storage).map Vector.mk
  | .error cause, _ => .refused out cause
  | _, .error cause => .refused out cause

/-- Runs an operation on storages if the sizes of both vectors agree. -/
def unaryWith (run : Storage → Storage → Written Storage) (out lhs : Vector) : Written Vector :=
  match lhs.checkSameSize out with
  | .ok () => (run out.storage lhs.storage).map Vector.mk
  | .error cause => .refused out cause

/-- Elementwise arithmetic on vectors of one numeric kind. -/
def arithmetic (n : Numeric) (op : Arithmetic) : (out lhs rhs : Vector) → Written Vector :=
  binaryWith (Storage.arithmetic n op)

/-- Elementwise negation on vectors of one numeric kind. -/
def negate (n : Numeric) : (out lhs : Vector) → Written Vector := unaryWith (Storage.negate n)

/-- Elementwise arithmetic at the kind of the left operand, which must be numeric. -/
def arithmeticByKind (op : Arithmetic) (out lhs rhs : Vector) : Written Vector :=
  match lhs.kind.numeric? with
  | some n => arithmetic n op out lhs rhs
  | none => .refused out (.unsupportedKind lhs.kind)

/-- Elementwise negation at the kind of the operand, which must be numeric. -/
def negateByKind (out lhs : Vector) : Written Vector :=
  match lhs.kind.numeric? with
  | some n => negate n out lhs
  | none => .refused out (.unsupportedKind lhs.kind)

/-- Elementwise logic on boolean vectors. -/
def logic (op : Logic) : (out lhs rhs : Vector) → Written Vector := binaryWith (Storage.logic op)

/-- Elementwise logic of a boolean vector with one byte. -/
def logicScalar (op : Logic) (out lhs : Vector) (rhs : UInt8) : Written Vector :=
  unaryWith (fun o l => Storage.logicScalar op o l rhs) out lhs

/-- Elementwise negation of a boolean vector. -/
def not : (out lhs : Vector) → Written Vector := unaryWith Storage.not

/-- Whether two boolean vectors hold the same bytes; vectors of different sizes do not. -/
def equal (lhs rhs : Vector) : Except Fault Bool := lhs.storage.equal rhs.storage

def notEqual (lhs rhs : Vector) : Except Fault Bool := lhs.storage.notEqual rhs.storage

end Vector

end TypedArrays
