import TypedArrays.Single.Basic
import TypedArrays.Word

/-! The four kinds of element and the values that elements of each kind take. -/

namespace TypedArrays

/-- What the elements of a container are. -/
inductive Kind where
  | boolean
  | character
  | integer
  | real
deriving DecidableEq

namespace Kind

/-- All kinds, by ascending tag. -/
def all : List Kind := [boolean, character, integer, real]

/-- The number that stands for the kind outside the library. -/
def tag : Kind → Int
  | boolean => 1
  | character => 2
  | integer => 3
  | real => 4

def ofTag? (tag : Int) : Option Kind := all.find? (·.tag = tag)

def name : Kind → String
  | boolean => "boolean"
  | character => "character"
  | integer => "integer"
  | real => "real"

/-- The name as detailed texts write it. -/
def title : Kind → String
  | boolean => "Boolean"
  | character => "Character"
  | integer => "Integer"
  | real => "Real"

/-- The bytes that one element takes. -/
def bytes : Kind → Nat
  | boolean => 1
  | character => 1
  | integer => 4
  | real => 4

/-- Kinds are ordered by their tags. -/
instance : Ord Kind := ⟨fun a b => compare a.tag b.tag⟩

/-- The elements of a kind. A boolean is a byte of which every nonzero value is true. -/
@[reducible] def Carrier : Kind → Type
  | boolean => UInt8
  | character => Word .w8
  | integer => Word .w32
  | real => Single

instance : (k : Kind) → DecidableEq k.Carrier
  | boolean => inferInstanceAs (DecidableEq UInt8)
  | character => inferInstanceAs (DecidableEq (Word .w8))
  | integer => inferInstanceAs (DecidableEq (Word .w32))
  | real => inferInstanceAs (DecidableEq Single)

/-- The element that fresh containers are filled with. -/
def zero : (k : Kind) → k.Carrier
  | boolean => (0 : UInt8)
  | character => (0 : Word .w8)
  | integer => (0 : Word .w32)
  | real => Single.zero

instance (k : Kind) : Inhabited k.Carrier := ⟨k.zero⟩

/-- Equality of elements as values; it differs from identity for real elements only. -/
def same : (k : Kind) → k.Carrier → k.Carrier → Bool
  | boolean => fun a b => decide (a = b)
  | character => fun a b => decide (a = b)
  | integer => fun a b => decide (a = b)
  | real => Single.same

/-- The element stored by the low bits of `pattern`. -/
def ofPattern (pattern : Int) : (k : Kind) → k.Carrier
  | boolean => UInt8.ofNat (pattern % 0x100).toNat
  | character => Word.wrap .w8 pattern
  | integer => Word.wrap .w32 pattern
  | real => ⟨UInt32.ofNat (pattern % 0x100000000).toNat⟩

/-- An element in decimal. Real elements have no decimal text. -/
def text? : (k : Kind) → k.Carrier → Option String
  | boolean => fun a => some (toString a.toNat)
  | character => fun a => some (toString a.val)
  | integer => fun a => some (toString a.val)
  | real => fun _ => none

end Kind

/-- The kinds that arithmetic is defined on. -/
inductive Numeric where
  | integer
  | real
deriving DecidableEq

namespace Numeric

def kind : Numeric → Kind
  | integer => .integer
  | real => .real

/-- Elements of a numeric kind. -/
@[reducible] def Carrier (n : Numeric) : Type := n.kind.Carrier

end Numeric

namespace Kind

/-- The kind as a numeric kind, if arithmetic is defined on it. -/
def numeric? : Kind → Option Numeric
  | boolean => none
  | character => none
  | integer => some .integer
  | real => some .real

def isNumeric (k : Kind) : Bool := k.numeric?.isSome

end Kind

end TypedArrays
