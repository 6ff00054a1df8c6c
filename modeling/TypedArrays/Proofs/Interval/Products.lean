import Mathlib.Algebra.Group.Int.Defs
import Mathlib.Algebra.Group.Pointwise.Set.Basic
import TypedArrays.Proofs.Interval.Inclusion

/-! Laws of interval products.

The order of two factors never matters, whatever wraps. Where the products of bounds fit, a product is the least
interval around them, in whatever order the bounds stand (`mul_extremes`). A product of three is then the least
one around the products of three bounds, whichever two are multiplied first (`Extremes.mul`). Products do not
distribute over sums, since the two parts of the sum may use different integers of the common factor; they do
if that factor is a single integer. -/

namespace TypedArrays.Interval

open scoped Pointwise

variable {w : Width} {a b c d : Interval w} {s t : Set Int} {x y z : Int}

/-! ### Any bounds -/

theorem hull_exchange_middle (p q r s : Word w) : hull p r q s = hull p q r s := by
  refine ext_val ?_ ?_
  · rw [lower_hull, lower_hull]
    omega
  · rw [upper_hull, upper_hull]
    omega

protected theorem mul_comm (a b : Interval w) : a * b = b * a := by
  have hword : ∀ u v : Word w, u * v = v * u := fun u v => congrArg (Word.wrap w) (Int.mul_comm u.val v.val)
  show hull _ _ _ _ = hull _ _ _ _
  rw [hword b.lower a.lower, hword b.lower a.upper, hword b.upper a.lower, hword b.upper a.upper]
  exact hull_exchange_middle _ _ _ _

/-! ### Extremes -/

/-- The bounds are the least and the greatest integer of a set. -/
structure Extremes (s : Set Int) (c : Interval w) : Prop where
  bounds_mem : c.bounds ⊆ s
  encloses : ∀ z ∈ s, c.Holds z

theorem Extremes.within (h : Extremes s c) (hd : ∀ z ∈ s, d.Holds z) : c.Within d :=
  .of_bounds fun x hx => hd x (h.bounds_mem hx)

theorem Extremes.eq (hc : Extremes s c) (hd : Extremes s d) : c = d :=
  (hc.within hd.encloses).antisymm (hd.within hc.encloses)

theorem Between.holds (h : Between x y z) (hx : c.Holds x) (hy : c.Holds y) : c.Holds z := by
  rcases h with ⟨hl, hu⟩ | ⟨hl, hu⟩
  · exact ⟨Int.le_trans hx.1 hl, Int.le_trans hu hy.2⟩
  · exact ⟨Int.le_trans hy.1 hl, Int.le_trans hu hx.2⟩

/-- The extremes of a set of products are products with an extreme first factor. -/
theorem Extremes.mul (hc : Extremes s c) (hd : Extremes (c.bounds * t) d) : Extremes (s * t) d where
  bounds_mem := hd.bounds_mem.trans (Set.mul_subset_mul_right hc.bounds_mem)
  encloses := by
    rintro _ ⟨x, hx, y, hy, rfl⟩
    obtain ⟨hl, hu⟩ := hc.encloses x hx
    exact (between_mul_right hl hu y).holds (hd.encloses _ ⟨_, c.lower_mem_bounds, y, hy, rfl⟩)
      (hd.encloses _ ⟨_, c.upper_mem_bounds, y, hy, rfl⟩)

theorem mem_corners_iff : z ∈ Operator.multiply.corners a b ↔ z ∈ a.bounds * b.bounds := by
  simp [Operator.corners, bounds, Set.mem_mul, or_assoc, eq_comm]

theorem hull_holds_words (p q r s : Word w) : ∀ u ∈ [p, q, r, s], (hull p q r s).Holds u.val := by
  simp only [List.forall_mem_cons, Holds, lower_hull, upper_hull]
  refine ⟨?_, ?_, ?_, ?_, by simp⟩ <;> omega

theorem mul_extremes (hfit : ∀ z ∈ Operator.multiply.corners a b, w.Fits z) :
    Extremes (a.bounds * b.bounds) (a * b) where
  bounds_mem := by
    obtain ⟨_, ⟨⟩, hbounds⟩ := Operator.apply_bounds (fun h => by cases h) hfit
    exact fun x hx => mem_corners_iff.mp (hbounds x hx)
  encloses := by
    intro z hz
    rw [← mem_corners_iff] at hz
    rw [← Word.val_wrap_of_fits (hfit z hz)]
    exact hull_holds_words _ _ _ _ _ (List.mem_map_of_mem (f := Word.wrap w) hz)

/-! ### Three factors -/

theorem mul_mul_extremes (hab : ∀ z ∈ Operator.multiply.corners a b, w.Fits z)
    (habc : ∀ z ∈ a.bounds * b.bounds * c.bounds, w.Fits z) :
    Extremes (a.bounds * b.bounds * c.bounds) (a * b * c) := by
  have hproduct := mul_extremes hab
  have hsubset := Set.mul_subset_mul_right (t := c.bounds) hproduct.bounds_mem
  exact hproduct.mul (mul_extremes fun z hz => habc z (hsubset (mem_corners_iff.mp hz)))

theorem mul_assoc_of_fits (hab : ∀ z ∈ Operator.multiply.corners a b, w.Fits z)
    (hbc : ∀ z ∈ Operator.multiply.corners b c, w.Fits z)
    (habc : ∀ z ∈ a.bounds * b.bounds * c.bounds, w.Fits z) : a * b * c = a * (b * c) := by
  -- Either grouping has the extremes of the same eight products.
  have hleft := mul_mul_extremes hab habc
  rw [mul_rotate a.bounds] at hleft habc
  rw [Interval.mul_comm a (b * c)]
  exact hleft.eq (mul_mul_extremes hbc habc)

/-! ### Sums -/

theorem add_holds (hfit : ∀ z ∈ Operator.add.corners a b, w.Fits z) (hx : a.Holds x) (hy : b.Holds y) :
    (a + b).Holds (x + y) := by
  have hsafe : Operator.add.Safe a b := ⟨hfit, fun h => by cases h⟩
  exact hsafe.holds_exact hx hy rfl rfl

theorem eq_of_holds_point (ha : a.lower = a.upper) (hx : a.Holds x) (hy : a.Holds y) : x = y := by
  unfold Holds at hx hy
  rw [ha] at hx hy
  omega

section Distributing
variable (hsum : ∀ z ∈ Operator.add.corners b c, w.Fits z) (hab : ∀ z ∈ Operator.multiply.corners a b, w.Fits z)
  (hac : ∀ z ∈ Operator.multiply.corners a c, w.Fits z) (hout : ∀ z ∈ Operator.add.corners (a * b) (a * c), w.Fits z)
include hsum hab hac hout

theorem add_mul_holds : ∀ z ∈ a.bounds * (b + c).bounds, (a * b + a * c).Holds z := by
  rintro _ ⟨x, hx, z, hz, rfl⟩
  -- A bound of the sum is a sum of bounds, and its product with `x` a sum of products of bounds.
  obtain ⟨_, ⟨⟩, hbounds⟩ := Operator.apply_bounds (fun h => by cases h) hsum
  obtain ⟨u, hu, v, hv, ⟨⟩⟩ := Operator.exact_of_mem_corners (fun h => by cases h) (hbounds z hz)
  show Holds _ (x * (u + v))
  rw [Int.mul_add]
  exact add_holds hout ((mul_extremes hab).encloses _ (Set.mul_mem_mul hx hu))
    ((mul_extremes hac).encloses _ (Set.mul_mem_mul hx hv))

theorem fits_corners_mul_add : ∀ z ∈ Operator.multiply.corners a (b + c), w.Fits z := fun z hz =>
  (add_mul_holds hsum hab hac hout z (mem_corners_iff.mp hz)).fits

theorem mul_add_within : (a * (b + c)).Within (a * b + a * c) :=
  (mul_extremes (fits_corners_mul_add hsum hab hac hout)).within (add_mul_holds hsum hab hac hout)

theorem mul_add_of_point (ha : a.lower = a.upper) (hb : b.isProper = true) (hc : c.isProper = true) :
    a * (b + c) = a * b + a * c := by
  have hpoint : a.isProper = true := decide_eq_true (Word.le_def.mpr (by rw [ha]))
  have hleft := mul_hull hpoint hb hab
  have hright := mul_hull hpoint hc hac
  -- Both products take the one integer of the factor, so their sum is again a product with it.
  have hholds : ∀ {u v : Word w}, Attained (· * ·) a b u → Attained (· * ·) a c v →
      (a * (b + c)).Holds (u.val + v.val) := by
    rintro u v ⟨x, y, hx, hy, hu⟩ ⟨x', z, hx', hz, hv⟩
    rw [← hu, ← hv, eq_of_holds_point ha hx' hx, ← Int.mul_add]
    exact mul_holds (fits_corners_mul_add hsum hab hac hout) hx (add_holds hsum hy hz)
  refine (mul_add_within hsum hab hac hout).antisymm (.of_bounds (forall_bounds.mpr ⟨?_, ?_⟩))
  · rw [lower_add (hout _ (by simp [Operator.corners]))]
    exact hholds hleft.lower hright.lower
  · rw [upper_add (hout _ (by simp [Operator.corners]))]
    exact hholds hleft.upper hright.upper

end Distributing

/-- Products of intervals with any bounds, in order or not. Two factors may be exchanged, also where corners wrap.
    Three may be grouped either way if the corners of the first two, those of the last two and the eight products
    of three bounds fit. If the bounds of `b + c` and of `a * b + a * c` fit, and the corners of both products, then
    `a * (b + c)` lies inside `a * b + a * c`, and is equal to it if `a` is a single integer and `b` and `c` are
    proper. -/
theorem mul_commutes_associates_and_subdistributes (a b c : Interval w) :
    a * b = b * a ∧
    ((∀ z ∈ Operator.multiply.corners a b, w.Fits z) → (∀ z ∈ Operator.multiply.corners b c, w.Fits z) →
      (∀ x ∈ a.bounds, ∀ y ∈ b.bounds, ∀ z ∈ c.bounds, w.Fits (x * y * z)) → a * b * c = a * (b * c)) ∧
    ((∀ z ∈ Operator.add.corners b c, w.Fits z) → (∀ z ∈ Operator.multiply.corners a b, w.Fits z) →
      (∀ z ∈ Operator.multiply.corners a c, w.Fits z) → (∀ z ∈ Operator.add.corners (a * b) (a * c), w.Fits z) →
      (a * (b + c)).Within (a * b + a * c) ∧
      (a.lower = a.upper → b.isProper = true → c.isProper = true → a * (b + c) = a * b + a * c)) := by
  refine ⟨Interval.mul_comm a b, fun hab hbc habc => ?_, fun hsum hab hac hout => ?_⟩
  · apply mul_assoc_of_fits hab hbc
    rintro _ ⟨_, ⟨x, hx, y, hy, rfl⟩, z, hz, rfl⟩
    exact habc x hx y hy z hz
  · exact ⟨mul_add_within hsum hab hac hout, mul_add_of_point hsum hab hac hout⟩

/-- Two inverted factors around one that straddles zero: the products group either way, and the product with a sum
    is strictly smaller than the sum of products. With a single negative integer the two are equal. -/
theorem mul_commutes_associates_and_subdistributes_of_inverted :
    let a : Interval .w8 := ⟨.wrap .w8 3, .wrap .w8 (-2)⟩
    let b : Interval .w8 := ⟨.wrap .w8 (-1), .wrap .w8 4⟩
    let c : Interval .w8 := ⟨.wrap .w8 5, .wrap .w8 (-3)⟩
    let p : Interval .w8 := ⟨.wrap .w8 (-3), .wrap .w8 (-3)⟩
    ((∀ x ∈ a.bounds, ∀ y ∈ b.bounds, ∀ z ∈ c.bounds, Width.w8.Fits (x * y * z)) ∧
        ∀ z ∈ Operator.add.corners (a * b) (a * c), Width.w8.Fits z) ∧
      (a * b * c = a * (b * c) ∧ a * b * c = ⟨.wrap .w8 (-40), .wrap .w8 60⟩) ∧
      ((a * (b + c)).Within (a * b + a * c) ∧ a * (b + c) ≠ a * b + a * c) ∧
      p * (b + c.swap) = p * b + p * c.swap := by
  intro a b c p
  obtain ⟨-, hassoc, hwithin⟩ := mul_commutes_associates_and_subdistributes a b c
  obtain ⟨-, -, hpoint⟩ := mul_commutes_associates_and_subdistributes p b c.swap
  have htriple : ∀ x ∈ a.bounds, ∀ y ∈ b.bounds, ∀ z ∈ c.bounds, Width.w8.Fits (x * y * z) := by
    simp only [forall_bounds]
    decide
  have hout : ∀ z ∈ Operator.add.corners (a * b) (a * c), Width.w8.Fits z := by decide
  refine ⟨⟨htriple, hout⟩, ⟨hassoc (by decide) (by decide) htriple, by decide⟩,
    ⟨(hwithin (by decide) (by decide) (by decide) hout).1, by decide⟩, ?_⟩
  exact (hpoint (by decide) (by decide) (by decide) (by decide)).2 (by decide) (by decide) (by decide)

end TypedArrays.Interval
