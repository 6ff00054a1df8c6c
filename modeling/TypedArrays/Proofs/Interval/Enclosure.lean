import TypedArrays.Interval

/-! What the interval operators enclose.

Each operator has an exact counterpart on integers. Where the exact values at the corners fit in the
width, and no divisor is zero, the interval operator encloses the exact one. Products and quotients are
monotone in each operand, upward or downward, so on a box they lie between their values at the corners
(`hull_holds`). -/

namespace TypedArrays

namespace Word
variable {w : Width}

theorem val_min (a b : Word w) : (min a b).val = min a.val b.val := by
  simp only [min, le_def]
  split <;> rfl

theorem val_max (a b : Word w) : (max a b).val = max a.val b.val := by
  simp only [max, le_def]
  split <;> rfl

theorem divide_of_fits {x y : Word w} (hy : y.val ≠ 0) (h : w.Fits (x.val.tdiv y.val)) :
    x.divide y = .ok (wrap w (x.val.tdiv y.val)) := by
  rw [divide, if_neg hy, dif_pos h]
  exact congrArg Except.ok (ext_val (val_wrap_of_fits h).symm)

end Word

namespace Interval

variable {w : Width} {a b : Interval w} {x y : Int}

/-- An integer lies between the bounds. -/
def Holds (a : Interval w) (x : Int) : Prop := a.lower.val ≤ x ∧ x ≤ a.upper.val

instance (a : Interval w) (x : Int) : Decidable (a.Holds x) := inferInstanceAs (Decidable (_ ∧ _))

theorem Holds.isProper (h : a.Holds x) : a.isProper = true :=
  decide_eq_true (Word.le_def.mpr (Int.le_trans h.1 h.2))

theorem Holds.fits (h : a.Holds x) : w.Fits x :=
  ⟨Int.le_trans a.lower.fits.1 h.1, Int.le_trans h.2 a.upper.fits.2⟩

/-! ### Between two values -/

/-- Between two integers, whichever of them is the greater. -/
def Between (p q z : Int) : Prop := (p ≤ z ∧ z ≤ q) ∨ (q ≤ z ∧ z ≤ p)

theorem Between.neg {p q z : Int} (h : Between p q z) : Between (-p) (-q) (-z) := by
  unfold Between at *
  omega

section Monotone
variable {c d : Int}

theorem between_mul_right (hc : c ≤ x) (hd : x ≤ d) (y : Int) : Between (c * y) (d * y) (x * y) := by
  rcases Int.le_total 0 y with hy | hy
  · exact Or.inl ⟨Int.mul_le_mul_of_nonneg_right hc hy, Int.mul_le_mul_of_nonneg_right hd hy⟩
  · exact Or.inr ⟨Int.mul_le_mul_of_nonpos_right hd hy, Int.mul_le_mul_of_nonpos_right hc hy⟩

theorem between_mul_left (hc : c ≤ y) (hd : y ≤ d) (x : Int) : Between (x * c) (x * d) (x * y) := by
  rw [Int.mul_comm x c, Int.mul_comm x d, Int.mul_comm x y]
  exact between_mul_right hc hd x

theorem between_tdiv_right (hc : c ≤ x) (hd : x ≤ d) (hy : y ≠ 0) :
    Between (c.tdiv y) (d.tdiv y) (x.tdiv y) := by
  have hpos : ∀ {v : Int}, 0 < v → Between (c.tdiv v) (d.tdiv v) (x.tdiv v) :=
    fun hv => Or.inl ⟨Int.tdiv_le_tdiv hv hc, Int.tdiv_le_tdiv hv hd⟩
  rcases Int.lt_or_gt_of_ne hy with hneg | hv
  · have h := (hpos (Int.neg_pos_of_neg hneg)).neg
    rw [Int.tdiv_neg, Int.tdiv_neg, Int.tdiv_neg, Int.neg_neg, Int.neg_neg, Int.neg_neg] at h
    exact h
  · exact hpos hv

/-- A larger positive divisor gives a smaller quotient of a number that is not negative. -/
theorem tdiv_le_tdiv_of_divisor_le (hx : 0 ≤ x) (hc : 0 < c) (hcd : c ≤ d) : x.tdiv d ≤ x.tdiv c := by
  have hq : 0 ≤ x.tdiv d := Int.tdiv_nonneg hx (by omega)
  apply Int.le_tdiv_of_mul_le hc
  calc x.tdiv d * c ≤ x.tdiv d * d := Int.mul_le_mul_of_nonneg_left hcd hq
    _ = x / d * d := by rw [Int.tdiv_eq_ediv_of_nonneg hx]
    _ ≤ x := Int.ediv_mul_le x (by omega)

theorem between_tdiv_of_pos (hpos : 0 < c) (hc : c ≤ y) (hd : y ≤ d) (x : Int) :
    Between (x.tdiv c) (x.tdiv d) (x.tdiv y) := by
  have hnonneg : ∀ {u : Int}, 0 ≤ u → Between (u.tdiv c) (u.tdiv d) (u.tdiv y) := fun hu =>
    Or.inr ⟨tdiv_le_tdiv_of_divisor_le hu (by omega) hd, tdiv_le_tdiv_of_divisor_le hu hpos hc⟩
  rcases Int.le_total 0 x with hx | hx
  · exact hnonneg hx
  · have h := (hnonneg (Int.neg_nonneg_of_nonpos hx)).neg
    rw [Int.neg_tdiv, Int.neg_tdiv, Int.neg_tdiv, Int.neg_neg, Int.neg_neg, Int.neg_neg] at h
    exact h

theorem between_tdiv_left (hzero : 0 < c ∨ d < 0) (hc : c ≤ y) (hd : y ≤ d) (x : Int) :
    Between (x.tdiv c) (x.tdiv d) (x.tdiv y) := by
  rcases hzero with hpos | hneg
  · exact between_tdiv_of_pos hpos hc hd x
  · -- The negated divisors are positive and in the opposite order.
    have h := (between_tdiv_of_pos (by omega : 0 < -d) (Int.neg_le_neg hd) (Int.neg_le_neg hc) x).neg
    rw [Int.tdiv_neg, Int.tdiv_neg, Int.tdiv_neg, Int.neg_neg, Int.neg_neg, Int.neg_neg] at h
    exact Or.symm h

end Monotone

/-- Two steps between corners, first along the second operand and then along the first, stay in the hull. -/
theorem hull_holds {p q r s : Word w} {u v z : Int} (hu : Between p.val q.val u) (hv : Between r.val s.val v)
    (hz : Between u v z) : (hull p q r s).Holds z := by
  unfold Between at hu hv hz
  simp only [Holds, hull, Word.val_min, Word.val_max]
  omega

/-! ### Operators -/

theorem lower_add (h : w.Fits (a.lower.val + b.lower.val)) : (a + b).lower.val = a.lower.val + b.lower.val :=
  Word.val_wrap_of_fits h

theorem upper_add (h : w.Fits (a.upper.val + b.upper.val)) : (a + b).upper.val = a.upper.val + b.upper.val :=
  Word.val_wrap_of_fits h

theorem lower_sub (h : w.Fits (a.lower.val - b.upper.val)) : (a - b).lower.val = a.lower.val - b.upper.val :=
  Word.val_wrap_of_fits h

theorem upper_sub (h : w.Fits (a.upper.val - b.lower.val)) : (a - b).upper.val = a.upper.val - b.lower.val :=
  Word.val_wrap_of_fits h

/-- Negation takes the place of the one quotient that may leave the width, and wraps it. -/
theorem corner_eq_ok {u v : Word w} (hv : v.val ≠ 0) : corner u v = .ok (Word.wrap w (u.val.tdiv v.val)) := by
  by_cases hunit : v = -1
  · rw [corner, if_pos hunit, hunit, Word.val_neg_one, Int.tdiv_neg, Int.tdiv_one]
    rfl
  · have hfits : w.Fits (u.val.tdiv v.val) := Width.fits_tdiv u.fits hv fun h =>
      hunit (Word.ext_val (h.2.trans (Word.val_neg_one w).symm))
    rw [corner, if_neg hunit, Word.divide_of_fits hv hfits]

theorem div_eq_ok (hl : b.lower.val ≠ 0) (hu : b.upper.val ≠ 0) :
    a.div b = .ok (hull (Word.wrap w (a.lower.val.tdiv b.lower.val)) (Word.wrap w (a.lower.val.tdiv b.upper.val))
      (Word.wrap w (a.upper.val.tdiv b.lower.val)) (Word.wrap w (a.upper.val.tdiv b.upper.val))) := by
  rw [div, corner_eq_ok hl, corner_eq_ok hu, corner_eq_ok hl, corner_eq_ok hu]
  rfl

namespace Operator

/-- The operator on exact integers. Division rounds toward zero and is undefined for the divisor zero. -/
def exact (x y : Int) : Operator → Option Int
  | add => some (x + y)
  | subtract => some (x - y)
  | multiply => some (x * y)
  | divide => if y = 0 then none else some (x.tdiv y)

/-- The exact values an operator forms from the bounds of its operands. -/
def corners (a b : Interval w) : Operator → List Int
  | add => [a.lower.val + b.lower.val, a.upper.val + b.upper.val]
  | subtract => [a.lower.val - b.upper.val, a.upper.val - b.lower.val]
  | multiply =>
    [a.lower.val * b.lower.val, a.lower.val * b.upper.val, a.upper.val * b.lower.val, a.upper.val * b.upper.val]
  | divide =>
    [a.lower.val.tdiv b.lower.val, a.lower.val.tdiv b.upper.val, a.upper.val.tdiv b.lower.val,
      a.upper.val.tdiv b.upper.val]

/-- No corner leaves the width, and a divisor does not hold zero. -/
structure Safe (a b : Interval w) (op : Operator) : Prop where
  corners_fit : ∀ x ∈ op.corners a b, w.Fits x
  divisor : op = .divide → ¬b.Holds 0

instance (a b : Interval w) (op : Operator) : Decidable (op.Safe a b) :=
  decidable_of_iff ((∀ x ∈ op.corners a b, w.Fits x) ∧ (op = .divide → ¬b.Holds 0))
    ⟨fun h => ⟨h.1, h.2⟩, fun h => ⟨h.1, h.2⟩⟩

/-- The operator is defined on the intervals and on the integers, and its value there is enclosed. -/
def Encloses (a b : Interval w) (x y : Int) (op : Operator) : Prop :=
  ∃ c z, op.apply a b = .ok c ∧ op.exact x y = some z ∧ c.Holds z

section Enclosure
variable (ha : a.Holds x) (hb : b.Holds y)
include ha hb

theorem add_encloses (h : Safe a b .add) : Encloses a b x y .add := by
  have hfit : w.Fits (a.lower.val + b.lower.val) ∧ w.Fits (a.upper.val + b.upper.val) := by
    simpa [corners] using h.corners_fit
  refine ⟨a + b, x + y, rfl, rfl, ?_, ?_⟩
  · rw [lower_add hfit.1]
    exact Int.add_le_add ha.1 hb.1
  · rw [upper_add hfit.2]
    exact Int.add_le_add ha.2 hb.2

/-- The bounds cross: the least difference takes the greatest subtrahend. -/
theorem subtract_encloses (h : Safe a b .subtract) : Encloses a b x y .subtract := by
  have hfit : w.Fits (a.lower.val - b.upper.val) ∧ w.Fits (a.upper.val - b.lower.val) := by
    simpa [corners] using h.corners_fit
  refine ⟨a - b, x - y, rfl, rfl, ?_, ?_⟩
  · rw [lower_sub hfit.1]
    exact Int.sub_le_sub ha.1 hb.2
  · rw [upper_sub hfit.2]
    exact Int.sub_le_sub ha.2 hb.1

theorem multiply_encloses (h : Safe a b .multiply) : Encloses a b x y .multiply := by
  obtain ⟨h₁, h₂, h₃, h₄⟩ : w.Fits (a.lower.val * b.lower.val) ∧ w.Fits (a.lower.val * b.upper.val) ∧
      w.Fits (a.upper.val * b.lower.val) ∧ w.Fits (a.upper.val * b.upper.val) := by
    simpa [corners] using h.corners_fit
  refine ⟨a * b, x * y, rfl, rfl, hull_holds ?_ ?_ (between_mul_right ha.1 ha.2 y)⟩
  · rw [Word.val_mul, Word.val_mul, Width.bmod_of_fits h₁, Width.bmod_of_fits h₂]
    exact between_mul_left hb.1 hb.2 a.lower.val
  · rw [Word.val_mul, Word.val_mul, Width.bmod_of_fits h₃, Width.bmod_of_fits h₄]
    exact between_mul_left hb.1 hb.2 a.upper.val

theorem divide_encloses (h : Safe a b .divide) : Encloses a b x y .divide := by
  obtain ⟨h₁, h₂, h₃, h₄⟩ : w.Fits (a.lower.val.tdiv b.lower.val) ∧ w.Fits (a.lower.val.tdiv b.upper.val) ∧
      w.Fits (a.upper.val.tdiv b.lower.val) ∧ w.Fits (a.upper.val.tdiv b.upper.val) := by
    simpa [corners] using h.corners_fit
  have hzero : 0 < b.lower.val ∨ b.upper.val < 0 := by
    have := h.divisor rfl
    unfold Holds at this
    omega
  obtain ⟨hl, hu⟩ := hb
  have hy : y ≠ 0 := by omega
  refine ⟨_, x.tdiv y, div_eq_ok (by omega) (by omega), if_neg hy,
    hull_holds ?_ ?_ (between_tdiv_right ha.1 ha.2 hy)⟩
  · rw [Word.val_wrap_of_fits h₁, Word.val_wrap_of_fits h₂]
    exact between_tdiv_left hzero hl hu a.lower.val
  · rw [Word.val_wrap_of_fits h₃, Word.val_wrap_of_fits h₄]
    exact between_tdiv_left hzero hl hu a.upper.val

theorem Safe.encloses {op : Operator} (h : Safe a b op) : Encloses a b x y op := by
  cases op with
  | add => exact add_encloses ha hb h
  | subtract => exact subtract_encloses ha hb h
  | multiply => exact multiply_encloses ha hb h
  | divide => exact divide_encloses ha hb h

theorem Safe.holds_exact {op : Operator} {c : Interval w} {z : Int} (h : Safe a b op) (hc : op.apply a b = .ok c)
    (hz : op.exact x y = some z) : c.Holds z := by
  obtain ⟨d, u, hd, hu, hholds⟩ := h.encloses ha hb
  cases hc.symm.trans hd
  cases hz.symm.trans hu
  exact hholds

end Enclosure

end Operator

end Interval

end TypedArrays
