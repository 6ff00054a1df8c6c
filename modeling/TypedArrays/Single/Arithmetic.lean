import TypedArrays.Single.Nearest

/-! Single-precision sum, difference, product, quotient and remainder.

Each operation settles not-a-number, infinities and zeros first; what is left is computed exactly in
units and rounded once. The remainder is exact: it is a whole number of units below the divisor. -/

namespace TypedArrays.Single

/-- Changes the sign, also of zeros, infinities and not-a-number. -/
def neg (x : Single) : Single := ⟨x.bits ^^^ 0x80000000⟩

def add (x y : Single) : Single :=
  if x.isNaN || y.isNaN then nan
  else if x.isInfinite then
    if y.isInfinite && x.isNegative != y.isNegative then nan else x
  else if y.isInfinite then y
  else
    let sum := x.signedUnits + y.signedUnits
    if sum = 0 then signedZero (x.isNegative && y.isNegative)
    else ofRatio (sum < 0) sum.natAbs 1

def sub (x y : Single) : Single := add x (neg y)

def mul (x y : Single) : Single :=
  let negative := x.isNegative != y.isNegative
  if x.isNaN || y.isNaN then nan
  else if x.isInfinite || y.isInfinite then
    if x.isZero || y.isZero then nan else infinity negative
  else ofRatio negative (units x.magnitude * units y.magnitude) (1 <<< unitExponent)

def div (x y : Single) : Single :=
  let negative := x.isNegative != y.isNegative
  if x.isNaN || y.isNaN then nan
  else if x.isInfinite then
    if y.isInfinite then nan else infinity negative
  else if y.isInfinite then signedZero negative
  else if y.isZero then
    if x.isZero then nan else infinity negative
  else ofRatio negative (units x.magnitude <<< unitExponent) (units y.magnitude)

/-- The remainder of division rounded toward zero, with the sign of the dividend. -/
def rem (x y : Single) : Single :=
  if x.isNaN || y.isNaN || x.isInfinite || y.isZero then nan
  else if y.isInfinite then x
  else ofRatio x.isNegative (units x.magnitude % units y.magnitude) 1

instance : Neg Single := ⟨neg⟩

instance : Add Single := ⟨add⟩

instance : Sub Single := ⟨sub⟩

instance : Mul Single := ⟨mul⟩

instance : Div Single := ⟨div⟩

instance : Mod Single := ⟨rem⟩

end TypedArrays.Single
