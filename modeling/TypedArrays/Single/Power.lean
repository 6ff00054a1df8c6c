import TypedArrays.Single.Nearest

/-! Correctly rounded single-precision powers.

The exponent of a power is written in lowest terms as `n / 2 ^ k`, up to sign. A positive base `x`
then lies on the same side of `z` as `x ^ n` lies of `z ^ (2 ^ k)`, so rounding a power needs whole
powers only. `tie` decides exactly when the two sides are equal. All other comparisons are settled
by brackets: a lower and an upper bound with a limited number of significant bits, tried at growing
precision. -/

namespace TypedArrays.Single

/-! ### Numbers with a binary exponent -/

/-- The number `mantissa * 2 ^ exponent`. -/
structure Scaled where
  mantissa : Nat
  exponent : Int

namespace Scaled

/-- At most `p` significant bits, rounded down. -/
def lower (p : Nat) (a : Scaled) : Scaled :=
  let drop := a.mantissa.log2 + 1 - p
  ⟨a.mantissa >>> drop, a.exponent + drop⟩

/-- At most `p` significant bits and a carry, never below the number. -/
def upper (p : Nat) (a : Scaled) : Scaled :=
  let drop := a.mantissa.log2 + 1 - p
  if drop = 0 then a else ⟨(a.mantissa >>> drop) + 1, a.exponent + drop⟩

def mul (a b : Scaled) : Scaled := ⟨a.mantissa * b.mantissa, a.exponent + b.exponent⟩

/-- Whether one positive number is below another. The leading bits decide unless they stand at the
same place; then the exponents are close enough to align the mantissas. -/
def below (a b : Scaled) : Bool :=
  let top (s : Scaled) : Int := s.mantissa.log2 + s.exponent
  if top a = top b then
    a.mantissa <<< (a.exponent - b.exponent).toNat < b.mantissa <<< (b.exponent - a.exponent).toNat
  else top a < top b

end Scaled

/-- A lower and an upper bound of a positive number. -/
structure Bracket where
  low : Scaled
  high : Scaled

namespace Bracket

def exact (a : Scaled) : Bracket := ⟨a, a⟩

def one : Bracket := exact ⟨1, 0⟩

/-- Bounds of a product, with `p` significant bits. -/
def mul (p : Nat) (a b : Bracket) : Bracket :=
  ⟨(a.low.mul b.low).lower p, (a.high.mul b.high).upper p⟩

/-- Bounds of a power, by repeated squaring. -/
def pow (p : Nat) (a : Bracket) (n : Nat) : Bracket :=
  if n = 0 then one
  else
    let rest := pow p (mul p a a) (n / 2)
    if n % 2 = 1 then mul p a rest else rest
termination_by n

/-- Bounds after squaring `k` times. -/
def squared (p : Nat) : Nat → Bracket → Bracket
  | 0, a => a
  | k + 1, a => squared p k (mul p a a)

/-- The order of two bracketed numbers, if the brackets lie apart. -/
def separate (a b : Bracket) : Option Ordering :=
  if a.high.below b.low then some .lt
  else if b.high.below a.low then some .gt
  else none

end Bracket

/-! ### Exponents in lowest terms -/

/-- Splits a positive number into an odd factor and the number of factors two. -/
def splitTwos (n : Nat) : Nat × Nat :=
  if n = 0 ∨ n % 2 = 1 then (n, 0)
  else
    let (odd, twos) := splitTwos (n / 2)
    (odd, twos + 1)
termination_by n

/-- The absolute value of an exponent, `num / 2 ^ halvings` in lowest terms. -/
structure Exponent where
  num : Nat
  halvings : Nat

namespace Exponent

def ofMagnitude (m : Nat) : Exponent :=
  let (odd, twos) := splitTwos (units m)
  ⟨odd <<< (twos - unitExponent), unitExponent - twos⟩

def isWhole (e : Exponent) : Bool := e.halvings == 0

def isOdd (e : Exponent) : Bool := e.halvings == 0 && e.num % 2 == 1

end Exponent

/-! ### Positive powers -/

/-- Whether `base` units raised to the exponent are exactly `d` half units. Odd parts above one can
agree only for small exponents: `3 ^ 16` has more bits than a single or a middle of two singles. -/
def tie (base : Nat) (e : Exponent) (inverse : Bool) (d : Nat) : Bool :=
  let (oddBase, twosBase) := splitTwos base
  let (oddGoal, twosGoal) := splitTwos d
  let exponentBase : Int := (twosBase - unitExponent : Int) * e.num
  let exponentGoal : Int := (twosGoal - (unitExponent + 1) : Int) * (1 <<< e.halvings : Nat)
  let oddsAgree :=
    (oddBase == 1 && oddGoal == 1) ||
      (!inverse && e.num ≤ 15 && e.halvings ≤ 3 && oddBase.pow e.num == oddGoal.pow (1 <<< e.halvings))
  oddsAgree && (if inverse then -exponentBase else exponentBase) == exponentGoal

/-- The significant bits that brackets are tried with first. Each squaring loses about one bit, so the
exponent says how many are needed. -/
def precision (e : Exponent) : Nat := 96 + e.num.log2 + e.halvings

/-- Bounds of `base` units raised to the numerator of the exponent. -/
def powerBracket (p : Nat) (base : Nat) (e : Exponent) : Bracket :=
  (Bracket.exact ⟨base, -unitExponent⟩).pow p e.num

/-- Compares `base` units raised to the exponent with `d` half units, given bounds of the numerator's
power. -/
def bracketSide (p : Nat) (power : Bracket) (e : Exponent) (inverse : Bool) (d : Nat) : Option Ordering :=
  let target := (Bracket.exact ⟨d, -(unitExponent + 1)⟩).squared p e.halvings
  if inverse then Bracket.one.separate (power.mul p target) else power.separate target

/-- How `base` units raised to the exponent compare with a number of half units. Bounds that do not lie
apart are refined, up to eight times the precision. -/
def powerSide (base : Nat) (e : Exponent) (inverse : Bool) : Nat → Ordering :=
  let p := precision e
  let power := powerBracket p base e
  fun d =>
    if tie base e inverse d then .eq
    else
      match bracketSide p power e inverse d with
      | some side => side
      | none =>
        let finer := [2 * p, 4 * p, 8 * p].findSome? fun q => bracketSide q (powerBracket q base e) e inverse d
        finer.getD .lt

/-- The nearest single to a positive base raised to an exponent, with the given sign. -/
def positivePower (negative : Bool) (base : Nat) (e : Exponent) (inverse : Bool) : Single :=
  ofMagnitude negative (nearest (powerSide base e inverse))

/-! ### All powers -/

/-- `x` raised to `y`. Anything to the power zero, and one to any power, is one, also where the other
operand is not a number, unless that operand is signaling. An infinite exponent counts as even. A
negative base takes whole exponents only, and an odd exponent keeps its sign. How
precise a power has to be is left open by the arithmetic of singles; the choice made here is the
nearest one. -/
def pow (x y : Single) : Single :=
  let e := Exponent.ofMagnitude y.magnitude
  let odd := !y.isInfinite && e.isOdd
  let negative := x.isNegative && odd
  let oneMagnitude := one.magnitude
  if x.isSignaling || y.isSignaling then nan
  else if y.isZero || x == one then one
  else if x.isNaN || y.isNaN then nan
  else if x.isZero || x.isInfinite then
    if x.isZero == y.isNegative then infinity negative else signedZero negative
  else if y.isInfinite then
    if x.magnitude == oneMagnitude then one
    else if (x.magnitude < oneMagnitude) == y.isNegative then infinity false
    else zero
  else if x.isNegative && !e.isWhole then nan
  else positivePower negative (units x.magnitude) e y.isNegative

end TypedArrays.Single
