import Mathlib.Data.Set.Insert
import TypedArrays.Proofs.Interval.Hull

/-! Inclusion of intervals.

Operators keep inclusion. The corners of smaller operands are values at points of the larger ones
(`exact_of_mem_corners`), and the larger result encloses these. So the corners fit, and since the bounds of
the smaller result are corners (`apply_bounds`), the larger result holds both. Signs are never looked at:
which corner is the extreme one does not matter. -/

namespace TypedArrays.Interval

variable {w : Width} {a a' b b' c : Interval w} {x y z : Int}

/-- The bounds do not leave those of another interval. -/
def Within (a b : Interval w) : Prop := b.lower ≤ a.lower ∧ a.upper ≤ b.upper

instance (a b : Interval w) : Decidable (a.Within b) := inferInstanceAs (Decidable (_ ∧ _))

theorem Within.refl (a : Interval w) : a.Within a := ⟨Int.le_refl _, Int.le_refl _⟩

theorem Within.antisymm (h : a.Within b) (h' : b.Within a) : a = b :=
  ext_val (Int.le_antisymm h'.1 h.1) (Int.le_antisymm h.2 h'.2)

theorem Within.holds (h : a.Within b) (hx : a.Holds x) : b.Holds x :=
  ⟨Int.le_trans h.1 hx.1, Int.le_trans hx.2 h.2⟩

theorem Within.isProper (h : a.Within b) (ha : a.isProper = true) : b.isProper = true :=
  (h.holds (holds_lower ha)).isProper

/-! ### Bounds -/

/-- The two bounds as exact integers. -/
def bounds (a : Interval w) : Set Int := {a.lower.val, a.upper.val}

theorem lower_mem_bounds (a : Interval w) : a.lower.val ∈ a.bounds := Set.mem_insert _ _

theorem upper_mem_bounds (a : Interval w) : a.upper.val ∈ a.bounds := Set.mem_insert_of_mem _ rfl

theorem forall_bounds {P : Int → Prop} : (∀ x ∈ a.bounds, P x) ↔ P a.lower.val ∧ P a.upper.val := by
  simp [bounds]

theorem holds_of_mem_bounds (ha : a.isProper = true) (hx : x ∈ a.bounds) : a.Holds x := by
  rcases hx with rfl | rfl
  · exact holds_lower ha
  · exact holds_upper ha

theorem Within.of_bounds (h : ∀ x ∈ a.bounds, b.Holds x) : a.Within b :=
  ⟨(h _ a.lower_mem_bounds).1, (h _ a.upper_mem_bounds).2⟩

/-- The bounds of a hull are two of its four integers. -/
theorem bounds_hull_mem {s : Set Int} (hfit : ∀ z ∈ s, w.Fits z) {z₁ z₂ z₃ z₄ : Int} (h₁ : z₁ ∈ s) (h₂ : z₂ ∈ s)
    (h₃ : z₃ ∈ s) (h₄ : z₄ ∈ s) :
    ∀ x ∈ (hull (.wrap w z₁) (.wrap w z₂) (.wrap w z₃) (.wrap w z₄)).bounds, x ∈ s := by
  have hword : ∀ {z}, z ∈ s → (Word.wrap w z).val ∈ s := fun hz => by
    rw [Word.val_wrap_of_fits (hfit _ hz)]
    exact hz
  rw [forall_bounds]
  exact bounds_of_words (P := fun u => u.val ∈ s) (hword h₁) (hword h₂) (hword h₃) (hword h₄)

/-! ### Corners -/

namespace Operator
variable {op : Operator}

/-- No bound of a divisor is zero. -/
def Defined (b : Interval w) (op : Operator) : Prop := op = .divide → ∀ y ∈ b.bounds, y ≠ 0

/-- A corner is the exact value of the operator at two bounds. -/
theorem exact_of_mem_corners (hdef : op.Defined b) (hz : z ∈ op.corners a b) :
    ∃ x ∈ a.bounds, ∃ y ∈ b.bounds, op.exact x y = some z := by
  have hal := a.lower_mem_bounds
  have hau := a.upper_mem_bounds
  have hbl := b.lower_mem_bounds
  have hbu := b.upper_mem_bounds
  cases op with
  | add =>
    simp only [corners, List.mem_cons, List.not_mem_nil, or_false] at hz
    rcases hz with rfl | rfl
    · exact ⟨_, hal, _, hbl, rfl⟩
    · exact ⟨_, hau, _, hbu, rfl⟩
  | subtract =>
    simp only [corners, List.mem_cons, List.not_mem_nil, or_false] at hz
    rcases hz with rfl | rfl
    · exact ⟨_, hal, _, hbu, rfl⟩
    · exact ⟨_, hau, _, hbl, rfl⟩
  | multiply =>
    simp only [corners, List.mem_cons, List.not_mem_nil, or_false] at hz
    rcases hz with rfl | rfl | rfl | rfl
    · exact ⟨_, hal, _, hbl, rfl⟩
    · exact ⟨_, hal, _, hbu, rfl⟩
    · exact ⟨_, hau, _, hbl, rfl⟩
    · exact ⟨_, hau, _, hbu, rfl⟩
  | divide =>
    have hl := hdef rfl _ hbl
    have hu := hdef rfl _ hbu
    simp only [corners, List.mem_cons, List.not_mem_nil, or_false] at hz
    rcases hz with rfl | rfl | rfl | rfl
    · exact ⟨_, hal, _, hbl, if_neg hl⟩
    · exact ⟨_, hal, _, hbu, if_neg hu⟩
    · exact ⟨_, hau, _, hbl, if_neg hl⟩
    · exact ⟨_, hau, _, hbu, if_neg hu⟩

/-- Where the corners fit, the bounds of a result are two of them. -/
theorem apply_bounds (hdef : op.Defined b) (hfit : ∀ z ∈ op.corners a b, w.Fits z) :
    ∃ c, op.apply a b = .ok c ∧ ∀ x ∈ c.bounds, x ∈ op.corners a b := by
  cases op with
  | add =>
    simp only [corners, List.forall_mem_cons] at hfit
    refine ⟨_, rfl, forall_bounds.mpr ?_⟩
    rw [lower_add hfit.1, upper_add hfit.2.1]
    simp [corners]
  | subtract =>
    simp only [corners, List.forall_mem_cons] at hfit
    refine ⟨_, rfl, forall_bounds.mpr ?_⟩
    rw [lower_sub hfit.1, upper_sub hfit.2.1]
    simp [corners]
  | multiply =>
    refine ⟨_, rfl, bounds_hull_mem (s := {z | z ∈ corners a b multiply}) hfit ?_ ?_ ?_ ?_⟩ <;> simp [corners]
  | divide =>
    have hdiv : a.div b = _ := div_eq_ok (hdef rfl _ b.lower_mem_bounds) (hdef rfl _ b.upper_mem_bounds)
    refine ⟨_, hdiv, bounds_hull_mem (s := {z | z ∈ corners a b divide}) hfit ?_ ?_ ?_ ?_⟩ <;> simp [corners]

theorem Safe.defined (h : op.Safe a' b') (hb : b.isProper = true) (hbb : b.Within b') : op.Defined b := by
  rintro hop y hy rfl
  exact h.divisor hop (hbb.holds (holds_of_mem_bounds hb hy))

/-! ### Smaller operands -/

/-- Take proper operands inside larger ones. If the corners of the larger operands fit, and a larger divisor does
    not hold zero, then the corners of the smaller operands fit too, the operator is defined on both, and its
    result on the smaller ones lies inside its result on the larger ones. -/
theorem apply_is_inclusion_isotonic (op : Operator) (a a' b b' : Interval w) (ha : a.isProper = true)
    (hb : b.isProper = true) (haa : a.Within a') (hbb : b.Within b') (hfit : ∀ z ∈ op.corners a' b', w.Fits z)
    (hzero : op = .divide → ¬b'.Holds 0) :
    (∀ z ∈ op.corners a b, w.Fits z) ∧
      ∃ c c', op.apply a b = .ok c ∧ op.apply a' b' = .ok c' ∧ c.Within c' := by
  have hsafe : op.Safe a' b' := ⟨hfit, hzero⟩
  obtain ⟨c', hc', -⟩ := apply_bounds (hsafe.defined (hbb.isProper hb) (.refl b')) hfit
  have hdef := hsafe.defined hb hbb
  have hcorners : ∀ z ∈ op.corners a b, c'.Holds z := by
    intro z hz
    obtain ⟨x, hx, y, hy, hexact⟩ := exact_of_mem_corners hdef hz
    exact hsafe.holds_exact (haa.holds (holds_of_mem_bounds ha hx)) (hbb.holds (holds_of_mem_bounds hb hy)) hc' hexact
  have hinside : ∀ z ∈ op.corners a b, w.Fits z := fun z hz => (hcorners z hz).fits
  obtain ⟨c, hc, hbounds⟩ := apply_bounds hdef hinside
  exact ⟨hinside, c, c', hc, hc', .of_bounds fun x hx => hcorners x (hbounds x hx)⟩

/-- Rounded quotients by negative divisors. The lower bound comes from `7 / -3` inside and from `7 / -2` outside, the
    upper bound from `3 / -5` inside and from `-100 / -2` outside. -/
theorem apply_is_inclusion_isotonic_of_negative_divisors :
    let a : Interval .w8 := ⟨.wrap .w8 3, .wrap .w8 7⟩
    let a' : Interval .w8 := ⟨.wrap .w8 (-100), .wrap .w8 7⟩
    let b : Interval .w8 := ⟨.wrap .w8 (-5), .wrap .w8 (-3)⟩
    let b' : Interval .w8 := ⟨.wrap .w8 (-9), .wrap .w8 (-2)⟩
    (a.isProper = true ∧ b.isProper = true ∧ a.Within a' ∧ b.Within b' ∧
        (∀ z ∈ divide.corners a' b', Width.w8.Fits z) ∧ ¬b'.Holds 0) ∧
      ∃ c c', a.div b = .ok c ∧ a'.div b' = .ok c' ∧ c.Within c' ∧
        c = ⟨.wrap .w8 (-2), .wrap .w8 0⟩ ∧ c' = ⟨.wrap .w8 (-3), .wrap .w8 50⟩ := by
  intro a a' b b'
  have hfit : ∀ z ∈ divide.corners a' b', Width.w8.Fits z := by decide
  have hzero : ¬b'.Holds 0 := by decide
  obtain ⟨-, c, c', hc, hc', hwithin⟩ := apply_is_inclusion_isotonic .divide a a' b b' (by decide) (by decide)
    (by decide) (by decide) hfit fun _ => hzero
  refine ⟨⟨by decide, by decide, by decide, by decide, hfit, hzero⟩, c, c', hc, hc', hwithin, ?_, ?_⟩
  · cases hc
    decide
  · cases hc'
    decide

end Operator

end TypedArrays.Interval
