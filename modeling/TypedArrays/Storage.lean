import TypedArrays.Halt
import TypedArrays.Kernel
import TypedArrays.Operator

/-! Flat typed storage: the elements of a container, all of one kind.

`read` gives the elements to a caller who names the right kind. The elementwise operations here check
the kinds of operands and output, in that order, and then run a loop; sizes are the concern of the
containers. -/

namespace TypedArrays

/-- Elements of one kind in order. -/
structure Storage where
  kind : Kind
  data : Array kind.Carrier

/-- No buffer may have more bytes than this. -/
def maxBytes : Nat := 0x7fffffffffffffff

/-- Sizes and dimensions stay below this. -/
def sizeLimit : Nat := 0x10000000000000000

namespace Storage

def size (s : Storage) : Nat := s.data.size

def isEmpty (s : Storage) : Bool := s.data.isEmpty

def bytes (s : Storage) : Nat := s.size * s.kind.bytes

/-- Storage of a given size, filled with zeros. -/
def zeroed (kind : Kind) (size : Nat) : Except Trap Storage :=
  if size * kind.bytes ≤ maxBytes then .ok ⟨kind, Array.replicate size kind.zero⟩
  else .error .capacityOverflow

def checkKind (s : Storage) (kind : Kind) : Except Fault Unit :=
  if s.kind = kind then .ok () else .error (.kindMismatch kind s.kind)

/-- The elements, for a caller who names their kind. -/
def read (s : Storage) (kind : Kind) : Except Fault (Array kind.Carrier) :=
  if h : s.kind = kind then .ok (h ▸ s.data) else .error (.kindMismatch kind s.kind)

theorem read_of_eq {s : Storage} {kind : Kind} (h : s.kind = kind) : s.read kind = .ok (h ▸ s.data) := dif_pos h

theorem read_of_ne {s : Storage} {kind : Kind} (h : s.kind ≠ kind) :
    s.read kind = .error (.kindMismatch kind s.kind) := dif_neg h

/-- The storage with one element replaced, or `none` if there is no such element. -/
def write (s : Storage) (kind : Kind) (index : Nat) (value : kind.Carrier) : Except Fault (Option Storage) := do
  let data ← s.read kind
  return if h : index < data.size then some ⟨kind, data.set index value⟩ else none

/-- The storage with its first elements replaced by stored bit patterns. -/
def overwrite (s : Storage) (patterns : List Int) : Storage :=
  ⟨s.kind, s.data.mapIdx fun i value => (patterns[i]?).elim value (Kind.ofPattern · s.kind)⟩

/-- Equality of kind, size and elements as values. -/
def same (s t : Storage) : Bool :=
  if h : s.kind = t.kind then
    s.size == t.size && (s.data.toList.zip (h ▸ t.data).toList).all fun (a, b) => s.kind.same a b
  else false

/-- The detailed text, which lists the elements; real elements have none. -/
def detail? (s : Storage) : Option String :=
  if s.kind = .real then none
  else
    let elements := s.data.toList.filterMap s.kind.text?
    some (s.kind.title ++ "([" ++ ", ".intercalate elements ++ "])")

/-! ### Elementwise operations -/

/-- The output after a loop over elements of one kind. -/
def ofSweep (kind : Kind) (s : Sweep kind.Carrier) : Written Storage :=
  ⟨⟨kind, s.out⟩, s.trap.map .trap⟩

/-- Runs a loop over two storages of a kind and an output of that kind. -/
def combineBy (kind : Kind) (run : (out lhs rhs : Array kind.Carrier) → Sweep kind.Carrier) (out lhs rhs : Storage) :
    Written Storage :=
  match lhs.read kind, rhs.read kind, out.read kind with
  | .ok l, .ok r, .ok o => ofSweep kind (run o l r)
  | .error cause, _, _ => .refused out cause
  | _, .error cause, _ => .refused out cause
  | _, _, .error cause => .refused out cause

/-- Combines two storages of a kind into a third of that kind. -/
def combine (kind : Kind) (f : kind.Carrier → kind.Carrier → Except Trap kind.Carrier) : (out lhs rhs : Storage) →
    Written Storage :=
  combineBy kind (Kernel.binary f)

/-- Changes a storage of a kind into another of that kind. -/
def transform (kind : Kind) (loop : UnaryLoop) (f : kind.Carrier → kind.Carrier) (out lhs : Storage) :
    Written Storage :=
  match lhs.read kind, out.read kind with
  | .ok l, .ok o => ofSweep kind (Kernel.unary loop f o l)
  | .error cause, _ => .refused out cause
  | _, .error cause => .refused out cause

/-- Elementwise arithmetic on storages of one numeric kind. -/
def arithmetic (n : Numeric) (op : Arithmetic) : (out lhs rhs : Storage) → Written Storage :=
  combineBy n.kind (Kernel.arithmetic n.scalar op)

/-- Elementwise negation on storages of one numeric kind. -/
def negate (n : Numeric) (out lhs : Storage) : Written Storage :=
  transform n.kind .negate n.negate out lhs

/-- Elementwise logic on boolean storages. -/
def logic (op : Logic) (out lhs rhs : Storage) : Written Storage :=
  combine .boolean (fun a b => .ok (op.apply a b)) out lhs rhs

/-- Elementwise logic of a boolean storage with one byte. -/
def logicScalar (op : Logic) (out lhs : Storage) (rhs : UInt8) : Written Storage :=
  transform .boolean .scalar (fun a => op.apply a rhs) out lhs

/-- Elementwise negation of a boolean storage. -/
def not (out lhs : Storage) : Written Storage := transform .boolean .not Logic.negate out lhs

/-- Compares the bytes of two boolean storages. -/
def compareBy (test : Array UInt8 → Array UInt8 → Bool) (lhs rhs : Storage) : Except Fault Bool := do
  let l ← lhs.read .boolean
  let r ← rhs.read .boolean
  return test l r

/-- Whether two boolean storages hold the same bytes. -/
def equal : (lhs rhs : Storage) → Except Fault Bool := compareBy Kernel.equal

def notEqual : (lhs rhs : Storage) → Except Fault Bool := compareBy Kernel.notEqual

end Storage

end TypedArrays
