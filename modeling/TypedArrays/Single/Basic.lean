/-! Single-precision numbers as their 32 stored bits.

The sign is the top bit; the other 31 bits are the magnitude. Magnitudes order as the numbers do:
below `infinityMagnitude` they are finite, at it infinite, above it not a number. Every finite
number is a whole multiple of the smallest positive one, and `units` counts that multiple exactly,
so exact arithmetic on singles is arithmetic on natural numbers. -/

namespace TypedArrays

/-- A single-precision number, given by its bits. -/
structure Single where
  bits : UInt32
deriving DecidableEq

namespace Single

/-- The magnitude of the infinities. -/
def infinityMagnitude : Nat := 0x7f800000

/-- The weight of the sign bit. -/
def signWeight : Nat := 0x80000000

/-- The weight of the lowest exponent bit, one above the fraction bits. -/
def exponentWeight : Nat := 0x800000

/-- The exponent of the smallest positive number: one unit is `2 ^ (-unitExponent)`. -/
def unitExponent : Nat := 149

def magnitude (x : Single) : Nat := x.bits.toNat % signWeight

def isNegative (x : Single) : Bool := signWeight ≤ x.bits.toNat

def isNaN (x : Single) : Bool := infinityMagnitude < x.magnitude

/-- Not a number in the form that asks for attention: the leading fraction bit is clear. -/
def isSignaling (x : Single) : Bool := x.isNaN && x.magnitude % exponentWeight * 2 < exponentWeight

def isInfinite (x : Single) : Bool := x.magnitude == infinityMagnitude

def isZero (x : Single) : Bool := x.magnitude == 0

def ofMagnitude (negative : Bool) (m : Nat) : Single :=
  ⟨UInt32.ofNat (if negative then m + signWeight else m)⟩

/-- Not a number, as operations answer it. Which bits such an answer has is left open by the
arithmetic of singles; these are the choice made here. -/
def nan : Single := ⟨0x7fc00000⟩

def zero : Single := ⟨0⟩

def one : Single := ⟨0x3f800000⟩

def signedZero (negative : Bool) : Single := ofMagnitude negative 0

def infinity (negative : Bool) : Single := ofMagnitude negative infinityMagnitude

instance : Inhabited Single := ⟨zero⟩

/-- How many units a magnitude stands for. The magnitude of infinity stands for the first power of
two above the finite numbers, which is what rounding measures overflow against. -/
def units (m : Nat) : Nat :=
  let exponent := m / exponentWeight
  let fraction := m % exponentWeight
  if exponent = 0 then fraction else (fraction + exponentWeight) <<< (exponent - 1)

/-- The exact value of a finite number, in units. -/
def signedUnits (x : Single) : Int :=
  if x.isNegative then -(units x.magnitude : Int) else units x.magnitude

/-- Numeric equality: nothing equals not-a-number, and the two zeros are equal. -/
def same (x y : Single) : Bool :=
  !x.isNaN && !y.isNaN && (x == y || (x.isZero && y.isZero))

end Single

end TypedArrays
