import TypedArrays.Boundary.Event
import TypedArrays.Boundary.Heap

/-! Calls across the boundary: what callers outside the library can ask for.

A call is written over a type of pointers for each form of container and a type of cells, places that
hold a pointer to a vector. Callers that speak of handles and callers that speak of names then use
the same calls. -/

namespace TypedArrays.Boundary

/-- One call. -/
inductive Call (P : Form → Type) (Cell : Type) where
  | newVector (tag size : Int)
  | newMatrix (tag rows columns : Int)
  | free (form : Form) (target : P form)
  | size (target : P .vector)
  | rows (target : P .matrix)
  | columns (target : P .matrix)
  | kind (form : Form) (target : P form)
  /-- The elements of a container, after the caller has stored bit patterns into them, if any. -/
  | data (form : Form) (target : P form) (stored : List Int)
  | checkSame (form : Form) (lhs rhs : P form)
  | arithmetic (form : Form) (op : Arithmetic) (out lhs rhs : P form)
  | negate (form : Form) (out lhs : P form)
  | not (out lhs : P .vector)
  | logic (op : Logic) (out lhs rhs : P .vector)
  | logicScalar (op : Logic) (out lhs : P .vector) (rhs : UInt8)
  | equal (lhs rhs : P .vector)
  | notEqual (lhs rhs : P .vector)
  | interval (value : Interval .w32)
  | intervalCombine (op : Interval.Operator) (lhs rhs : Interval .w32)
  | intervalNegate (value : Interval .w32)
  | intervalEqual (lhs rhs : Interval .w32)
  | intervalNotEqual (lhs rhs : Interval .w32)
  /-- Puts the stepped words of an interval, as a new vector, into a cell. -/
  | intervalBy (out : Cell) (range : Interval .w32) (step : Word .w32)
  | statusMessage (code : Int)
  | startLog

namespace Call

variable {P : Form → Type} {Cell : Type}

/-- The name of the entry point that a call goes to. -/
def entry : Call P Cell → String
  | newVector _ _ => "dash_vector_new"
  | newMatrix _ _ _ => "dash_matrix_new"
  | free form _ => "dash_" ++ form.name ++ "_free"
  | size _ => "dash_vector_size"
  | rows _ => "dash_matrix_rows"
  | columns _ => "dash_matrix_columns"
  | kind form _ => "dash_" ++ form.name ++ "_kind"
  | data form _ _ => "dash_" ++ form.name ++ "_data"
  | checkSame form _ _ => "dash_" ++ form.name ++ "_check_same_size"
  | arithmetic form op _ _ _ => "dash_" ++ form.name ++ "_" ++ op.name ++ "_" ++ form.name
  | negate form _ _ => "dash_" ++ form.name ++ "_negate"
  | not _ _ => "dash_bool_vector_not"
  | logic op _ _ _ => "dash_bool_vector_" ++ op.name ++ "_vector"
  | logicScalar op _ _ _ => "dash_bool_vector_" ++ op.name ++ "_scalar"
  | equal _ _ => "dash_bool_vector_eq"
  | notEqual _ _ => "dash_bool_vector_ne"
  | interval _ => "dash_interval_new"
  | intervalCombine op _ _ => "dash_interval_" ++ op.name
  | intervalNegate _ => "dash_interval_negate"
  | intervalEqual _ _ => "dash_interval_eq"
  | intervalNotEqual _ _ => "dash_interval_ne"
  | intervalBy _ _ _ => "dash_interval_by"
  | statusMessage _ => "dash_status_message"
  | startLog => "dash_runtime_init"

end Call

/-! ### Aborts -/

/-- What a null pointer was passed as. -/
inductive Role where
  | output
  | lhs
  | rhs
  /-- One of the pointers of a call without an output. -/
  | operand
deriving DecidableEq

namespace Role

def text : Role → String
  | output => "null output pointer"
  | lhs => "null lhs pointer"
  | rhs => "null rhs pointer"
  | operand => "null pointer"

end Role

/-- Why a call ended the program. -/
inductive Abort where
  | nullPointer (entry : String) (role : Role)
  | invalidOperands (entry : String) (cause : Fault)
  | trap (cause : Trap)
  /-- A pointer to a released container, which callers promise not to use. -/
  | dangling (entry : String)
deriving DecidableEq

namespace Abort

def message : Abort → String
  | nullPointer entry role => "called `" ++ entry ++ "` with " ++ role.text
  | invalidOperands entry cause => "called `" ++ entry ++ "` with invalid operands: " ++ cause.message
  | trap cause => cause.message
  | dangling entry => "called `" ++ entry ++ "` with released pointer"

end Abort

/-! ### Results -/

/-- What a completed call hands back. A call that writes an output hands back its handle. -/
inductive Value where
  | nothing
  | number (n : Int)
  | truth (b : Bool)
  | text (s : String)
  | interval (value : Interval .w32)
  | elements (value : Storage)
  | handle (form : Form) (h : Handle form)
  /-- A status and what the cell holds afterwards. -/
  | cell (status : Status) (content : Option (Handle .vector))

/-- The events of a call, and its end: an abort, or a value and the heap afterwards. -/
structure Reaction where
  events : List Event
  result : Except Abort (Value × Heap)

end TypedArrays.Boundary
