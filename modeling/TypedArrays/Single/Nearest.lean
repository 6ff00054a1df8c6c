import TypedArrays.Single.Basic

/-! Rounding to the nearest single, ties to even.

A nonnegative exact quantity is rounded through one question only: on which side of a given number
of half units does it lie? The answer is the largest magnitude that the quantity reaches, found by
bisection over the magnitudes. A quantity reaches a magnitude when it lies above the middle between
that magnitude and the one below it, or exactly on the middle and the magnitude is even. -/

namespace TypedArrays.Single

/-- The middle between a magnitude and the one below it, in half units. -/
def middle (m : Nat) : Nat := units (m - 1) + units m

/-- Whether a quantity rounds to the magnitude `m` or above it. `side d` tells how the quantity
compares with `d` half units. -/
def reaches (side : Nat → Ordering) (m : Nat) : Bool :=
  match side (middle m) with
  | .lt => false
  | .eq => m % 2 == 0
  | .gt => true

/-- Extends `found` by the largest sum of powers of two below the one at `bit` that keeps `holds`. -/
def bisect (holds : Nat → Bool) : (bit : Nat) → (found : Nat) → Nat
  | 0, found => found
  | bit + 1, found => bisect holds bit (if holds (found + 1 <<< bit) then found + 1 <<< bit else found)

/-- The magnitude of the single nearest to a quantity; infinity if it is past the finite numbers. -/
def nearest (side : Nat → Ordering) : Nat :=
  bisect (fun m => m ≤ infinityMagnitude && reaches side m) 31 0

/-- The single nearest to `num / den` units, with the given sign. -/
def ofRatio (negative : Bool) (num den : Nat) : Single :=
  ofMagnitude negative (nearest fun d => compare (2 * num) (d * den))

end TypedArrays.Single
