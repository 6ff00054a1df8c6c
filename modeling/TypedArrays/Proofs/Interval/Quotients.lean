import Mathlib.Algebra.Group.Nat.Defs
import TypedArrays.Proofs.Interval.Hull

/-! Where quotients of intervals are defined.

Division of words has two traps: the divisor zero, and the least integer by minus one, whose quotient is no word of
the width. At the corners of an interval negation stands in for division by minus one. It wraps, so the second trap
is gone, and everywhere else it is the division it replaces. What remains is a hull of four wrapped quotients,
with no condition but that no bound of the divisor is zero. -/

namespace TypedArrays

theorem Width.modulus_eq_pow (w : Width) : w.modulus = 2 ^ w.bits := by
  cases w <;> rfl

namespace Word
variable {w : Width} {x y : Word w}

theorem divide_of_zero (hy : y.val = 0) : x.divide y = .error .divideByZero := if_pos hy

/-- One quotient alone is past the range. -/
theorem divide_overflows_iff : x.divide y = .error .divideOverflow ↔ x.val = w.least ∧ y.val = -1 := by
  constructor
  · intro h
    by_cases hy : y.val = 0
    · cases (divide_of_zero hy).symm.trans h
    · by_cases hleast : x.val = w.least ∧ y.val = -1
      · exact hleast
      · cases (divide_of_fits hy (Width.fits_tdiv x.fits hy hleast)).symm.trans h
  · rintro ⟨hx, hy⟩
    have hpast : ¬w.Fits (x.val.tdiv y.val) := by
      have hleast := w.least_eq
      rw [hx, hy, Int.tdiv_neg, Int.tdiv_one]
      rintro ⟨-, hle⟩
      omega
    rw [divide, if_neg (by omega), dif_neg hpast]

end Word

namespace Interval
variable {w : Width} {a b : Interval w} {x y q : Word w}

/-! ### One corner -/

theorem corner_of_zero (hy : y.val = 0) : corner x y = .error .divideByZero := by
  have hunit : y ≠ -1 := by
    rintro rfl
    rw [Word.val_neg_one] at hy
    cases hy
  rw [corner, if_neg hunit, Word.divide_of_zero hy]

/-- Where division is defined, a corner is the quotient, also by minus one. -/
theorem corner_of_divide (h : x.divide y = .ok q) : corner x y = .ok q := by
  by_cases hy : y.val = 0
  · cases (Word.divide_of_zero hy).symm.trans h
  · by_cases hfits : w.Fits (x.val.tdiv y.val)
    · rw [corner_eq_ok hy, ← Word.divide_of_fits hy hfits, h]
    · rw [Word.divide, if_neg hy, dif_neg hfits] at h
      cases h

/-! ### Four corners -/

theorem div_of_zero (h : b.lower.val = 0 ∨ b.upper.val = 0) : a.div b = .error .divideByZero := by
  by_cases hl : b.lower.val = 0
  · rw [div, corner_of_zero hl]
    rfl
  · rw [div, corner_eq_ok hl, corner_of_zero (h.resolve_left hl)]
    rfl

theorem div_eq_cornerHull (h : ¬(b.lower.val = 0 ∨ b.upper.val = 0)) : a.div b = .ok (cornerHull Int.tdiv a b) :=
  div_eq_ok (fun hl => h (Or.inl hl)) fun hu => h (Or.inr hu)

theorem div_eq_error_iff {trap : Trap} :
    a.div b = .error trap ↔ (b.lower.val = 0 ∨ b.upper.val = 0) ∧ trap = .divideByZero := by
  by_cases h : b.lower.val = 0 ∨ b.upper.val = 0
  · rw [div_of_zero h]
    simp [h, eq_comm]
  · rw [div_eq_cornerHull h]
    simp [h]

theorem swap_div (a b : Interval w) : a.swap.div b = a.div b := by
  by_cases h : b.lower.val = 0 ∨ b.upper.val = 0
  · rw [div_of_zero h, div_of_zero h]
  · rw [div_eq_cornerHull h, div_eq_cornerHull h, cornerHull_swap_left]

theorem div_swap (a b : Interval w) : a.div b.swap = a.div b := by
  by_cases h : b.lower.val = 0 ∨ b.upper.val = 0
  · rw [div_of_zero h, div_of_zero (b := b.swap) h.symm]
  · rw [div_eq_cornerHull h, div_eq_cornerHull (b := b.swap) fun hswap => h hswap.symm, cornerHull_swap_right]

/-- Division of intervals with any bounds, in order or not, traps exactly if a bound of the divisor is zero, and then
    for that reason. Otherwise its bounds are the least and the greatest of the four exact quotients, each rounded
    toward zero and brought into the width; so the result is proper. It is the same for operands with their bounds
    exchanged. Division of words has another trap, for the least integer by minus one, but where that division is
    defined the corners agree with it. -/
theorem div_traps_only_on_zero_bound (a b : Interval w) :
    let quotient := fun x y : Word w => (x.val.tdiv y.val).bmod (2 ^ w.bits)
    (∀ trap, a.div b = .error trap ↔ (b.lower.val = 0 ∨ b.upper.val = 0) ∧ trap = .divideByZero) ∧
    Trap.divideByZero.message = "attempt to divide by zero" ∧
    (b.lower.val ≠ 0 → b.upper.val ≠ 0 → ∃ c, a.div b = .ok c ∧ c.isProper = true ∧
      c.lower.val = min (min (quotient a.lower b.lower) (quotient a.lower b.upper))
        (min (quotient a.upper b.lower) (quotient a.upper b.upper)) ∧
      c.upper.val = max (max (quotient a.lower b.lower) (quotient a.lower b.upper))
        (max (quotient a.upper b.lower) (quotient a.upper b.upper))) ∧
    a.swap.div b = a.div b ∧ a.div b.swap = a.div b ∧
    ∀ x y : Word w, (x.divide y = .error .divideOverflow ↔ x.val = w.least ∧ y.val = -1) ∧
      ∀ q, x.divide y = .ok q → corner x y = .ok q := by
  intro quotient
  refine ⟨fun trap => div_eq_error_iff, rfl, fun hl hu => ?_, swap_div a b, div_swap a b,
    fun x y => ⟨Word.divide_overflows_iff, fun q => corner_of_divide⟩⟩
  have hval : ∀ x y : Word w, (Word.wrap w (x.val.tdiv y.val)).val = quotient x y := fun x y => by
    simp only [quotient, ← w.modulus_eq_pow]
    rfl
  refine ⟨_, div_eq_cornerHull fun h => h.elim hl hu, cornerHull_isProper .., ?_, ?_⟩
  · rw [cornerHull, lower_hull, hval, hval, hval, hval]
  · rw [cornerHull, upper_hull, hval, hval, hval, hval]

/-- The dividend is inverted and has the least integer, the divisor straddles zero and has minus one: one corner
    wraps where division of words traps. With zero for the other bound of the divisor the quotient is undefined. -/
theorem div_traps_only_on_zero_bound_of_least :
    let a : Interval .w8 := ⟨.wrap .w8 7, .wrap .w8 (-128)⟩
    let b : Interval .w8 := ⟨.wrap .w8 (-1), .wrap .w8 3⟩
    let d : Interval .w8 := ⟨.wrap .w8 (-1), .wrap .w8 0⟩
    (b.lower.val ≠ 0 ∧ b.upper.val ≠ 0 ∧ d.upper.val = 0) ∧ a.upper.divide b.lower = .error .divideOverflow ∧
      (∃ c, a.div b = .ok c ∧ c.isProper = true ∧ c.lower.val = -128 ∧ c.upper.val = 2) ∧
      a.div d = .error .divideByZero ∧ a.swap.div b = a.div b := by
  intro a b d
  obtain ⟨-, -, hdefined, hswap, -, hwords⟩ := div_traps_only_on_zero_bound a b
  obtain ⟨htraps, -⟩ := div_traps_only_on_zero_bound a d
  obtain ⟨c, hc, hproper, hlower, hupper⟩ := hdefined (by decide) (by decide)
  refine ⟨⟨by decide, by decide, by decide⟩, (hwords a.upper b.lower).1.mpr ⟨by decide, by decide⟩,
    ⟨c, hc, hproper, hlower.trans (by decide), hupper.trans (by decide)⟩, ?_, hswap⟩
  exact (htraps .divideByZero).mpr ⟨Or.inr (by decide), rfl⟩

end Interval

end TypedArrays
