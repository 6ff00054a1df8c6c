import TypedArrays.Proofs.Interval.Hull

/-! Sums and differences without gaps.

Where the bounds fit, the integers of a sum of intervals are the sums of their integers and nothing else. A
product has gaps, as `2 * 1` and `2 * 2` leave out three, but a sum moves by one when an operand does: what
the first operand cannot reach, the second one makes up (`exists_add_eq`). A difference is a sum whose second
operand is reflected at zero, in exact integers, since the reflected bounds themselves may not fit. -/

namespace TypedArrays.Interval

variable {w : Width} {a b c : Interval w} {f : Int → Int → Int}

/-- The integers of an interval are the values of an operation inside two others. -/
def Image (f : Int → Int → Int) (a b c : Interval w) : Prop :=
  ∀ z, c.Holds z ↔ ∃ x y, a.Holds x ∧ b.Holds y ∧ f x y = z

namespace Image
variable (h : Image f a b c)
include h

theorem holds {x y : Int} (hx : a.Holds x) (hy : b.Holds y) : c.Holds (f x y) := (h _).mpr ⟨x, y, hx, hy, rfl⟩

theorem fits {x y : Int} (hx : a.Holds x) (hy : b.Holds y) : w.Fits (f x y) := (h.holds hx hy).fits

theorem isProper (ha : a.isProper = true) (hb : b.isProper = true) : c.isProper = true :=
  (h.holds (holds_lower ha) (holds_lower hb)).isProper

end Image

/-- An integer between the sums of the ends of two ranges is a sum: the first range gives as much as it can. -/
theorem exists_add_eq {l u l' u' z : Int} (h : l ≤ u) (h' : l' ≤ u') (hlower : l + l' ≤ z) (hupper : z ≤ u + u') :
    ∃ x y, (l ≤ x ∧ x ≤ u) ∧ (l' ≤ y ∧ y ≤ u') ∧ x + y = z := by
  rcases Int.le_total z (u + l') with hz | hz
  · exact ⟨z - l', l', ⟨by omega, by omega⟩, ⟨Int.le_refl l', h'⟩, Int.sub_add_cancel z l'⟩
  · exact ⟨u, z - u, ⟨h, Int.le_refl u⟩, ⟨by omega, by omega⟩, by omega⟩

section Proper
variable (ha : a.isProper = true) (hb : b.isProper = true)
include ha hb

theorem add_image (hlower : w.Fits (a.lower.val + b.lower.val)) (hupper : w.Fits (a.upper.val + b.upper.val)) :
    Image (· + ·) a b (a + b) := by
  intro z
  have hsafe : Operator.add.Safe a b := ⟨by simp [Operator.corners, hlower, hupper], fun h => by cases h⟩
  constructor
  · rintro ⟨hl, hu⟩
    rw [lower_add hlower] at hl
    rw [upper_add hupper] at hu
    exact exists_add_eq (holds_lower ha).2 (holds_lower hb).2 hl hu
  · rintro ⟨x, y, hx, hy, rfl⟩
    exact hsafe.holds_exact hx hy rfl rfl

theorem sub_image (hlower : w.Fits (a.lower.val - b.upper.val)) (hupper : w.Fits (a.upper.val - b.lower.val)) :
    Image (· - ·) a b (a - b) := by
  intro z
  have hsafe : Operator.subtract.Safe a b := ⟨by simp [Operator.corners, hlower, hupper], fun h => by cases h⟩
  constructor
  · rintro ⟨hl, hu⟩
    rw [lower_sub hlower, Int.sub_eq_add_neg] at hl
    rw [upper_sub hupper, Int.sub_eq_add_neg] at hu
    obtain ⟨x, y, hx, ⟨hy₁, hy₂⟩, rfl⟩ := exists_add_eq (holds_lower ha).2 (Int.neg_le_neg (holds_lower hb).2) hl hu
    exact ⟨x, -y, hx, ⟨Int.le_neg_of_le_neg hy₂, Int.neg_le_of_neg_le hy₁⟩, Int.sub_neg x y⟩
  · rintro ⟨x, y, hx, hy, rfl⟩
    exact hsafe.holds_exact hx hy rfl rfl

end Proper

/-- Sums of two proper intervals whose bounds fit, and likewise differences: the integers of the result are
    exactly the sums of an integer of each, none of these leaves the width, and the result is proper. -/
theorem add_and_sub_have_exact_images (a b : Interval w) (ha : a.isProper = true) (hb : b.isProper = true) :
    (w.Fits (a.lower.val + b.lower.val) → w.Fits (a.upper.val + b.upper.val) →
      (∀ z, (a + b).Holds z ↔ ∃ x y, a.Holds x ∧ b.Holds y ∧ x + y = z) ∧
      (∀ x y, a.Holds x → b.Holds y → w.Fits (x + y)) ∧ (a + b).isProper = true) ∧
    (w.Fits (a.lower.val - b.upper.val) → w.Fits (a.upper.val - b.lower.val) →
      (∀ z, (a - b).Holds z ↔ ∃ x y, a.Holds x ∧ b.Holds y ∧ x - y = z) ∧
      (∀ x y, a.Holds x → b.Holds y → w.Fits (x - y)) ∧ (a - b).isProper = true) := by
  refine ⟨fun hlower hupper => ?_, fun hlower hupper => ?_⟩
  · have himage := add_image ha hb hlower hupper
    exact ⟨himage, fun x y => himage.fits, himage.isProper ha hb⟩
  · have himage := sub_image ha hb hlower hupper
    exact ⟨himage, fun x y => himage.fits, himage.isProper ha hb⟩

/-- A sum and a difference that reach both ends of the width. The subtrahend is the least integer, which has
    no opposite of this width. -/
theorem add_and_sub_have_exact_images_up_to_both_ends :
    let a : Interval .w8 := ⟨.wrap .w8 (-128), .wrap .w8 10⟩
    let b : Interval .w8 := ⟨.wrap .w8 0, .wrap .w8 117⟩
    let c : Interval .w8 := ⟨.wrap .w8 (-128), .wrap .w8 (-1)⟩
    let d : Interval .w8 := ⟨.wrap .w8 (-128), .wrap .w8 (-128)⟩
    (a.isProper = true ∧ b.isProper = true ∧ c.isProper = true ∧ d.isProper = true) ∧
      ((a + b).lower.val = -128 ∧ (a + b).upper.val = 127 ∧ ∃ x y, a.Holds x ∧ b.Holds y ∧ x + y = 64) ∧
      (c - d).lower.val = 0 ∧ (c - d).upper.val = 127 ∧ ∃ x y, c.Holds x ∧ d.Holds y ∧ x - y = 64 := by
  intro a b c d
  obtain ⟨hsum, -⟩ := add_and_sub_have_exact_images a b (by decide) (by decide)
  obtain ⟨-, hdifference⟩ := add_and_sub_have_exact_images c d (by decide) (by decide)
  obtain ⟨himage, -⟩ := hsum (by decide) (by decide)
  obtain ⟨himage', -⟩ := hdifference (by decide) (by decide)
  exact ⟨by decide, ⟨by decide, by decide, (himage 64).mp (by decide)⟩, by decide, by decide,
    (himage' 64).mp (by decide)⟩

end TypedArrays.Interval
