import TypedArrays.Proofs.Interval.Enclosure

/-! Hulls: the smallest intervals around all values of an operation.

An interval is the hull of an operation on two others if it encloses every value and both of its bounds
are values. The least and the greatest of the values at the four corners give a hull as soon as they
enclose everything: for a product of proper intervals if the corners fit, for a quotient if the divisor is
away from zero and the one quotient that wraps is left out. Where nothing fits, a product is still proper
and does not depend on the order of the bounds. -/

namespace TypedArrays.Interval

variable {w : Width} {a b c : Interval w} {f : Int → Int → Int}

/-- The two bounds in the other order. -/
def swap (a : Interval w) : Interval w := ⟨a.upper, a.lower⟩

/-- A word is a value of the operation inside the two intervals. -/
def Attained (f : Int → Int → Int) (a b : Interval w) (z : Word w) : Prop :=
  ∃ x y, a.Holds x ∧ b.Holds y ∧ f x y = z.val

/-- An interval holds all values of the operation inside two intervals, and its bounds are such values. -/
structure Hull (f : Int → Int → Int) (a b c : Interval w) : Prop where
  encloses : ∀ x y, a.Holds x → b.Holds y → c.Holds (f x y)
  lower : Attained f a b c.lower
  upper : Attained f a b c.upper

theorem Hull.smallest (h : Hull f a b c) {lo hi : Int}
    (hall : ∀ x y, a.Holds x → b.Holds y → lo ≤ f x y ∧ f x y ≤ hi) : lo ≤ c.lower.val ∧ c.upper.val ≤ hi := by
  obtain ⟨x, y, hx, hy, hlower⟩ := h.lower
  obtain ⟨u, v, hu, hv, hupper⟩ := h.upper
  rw [← hlower, ← hupper]
  exact ⟨(hall x y hx hy).1, (hall u v hu hv).2⟩

theorem holds_lower (h : a.isProper = true) : a.Holds a.lower.val :=
  ⟨Int.le_refl _, Word.le_def.mp (of_decide_eq_true h)⟩

theorem holds_upper (h : a.isProper = true) : a.Holds a.upper.val :=
  ⟨Word.le_def.mp (of_decide_eq_true h), Int.le_refl _⟩

theorem ext_val (hl : a.lower.val = b.lower.val) (hu : a.upper.val = b.upper.val) : a = b := by
  cases a
  cases b
  cases Word.ext_val hl
  cases Word.ext_val hu
  rfl

/-! ### Four words -/

section Words
variable (p q r s : Word w)

theorem lower_hull : (hull p q r s).lower.val = min (min p.val q.val) (min r.val s.val) := by
  simp only [hull, Word.val_min]

theorem upper_hull : (hull p q r s).upper.val = max (max p.val q.val) (max r.val s.val) := by
  simp only [hull, Word.val_max]

theorem hull_isProper : (hull p q r s).isProper = true := by
  refine decide_eq_true (Word.le_def.mpr ?_)
  rw [lower_hull, upper_hull]
  omega

theorem hull_exchange_pairs : hull r s p q = hull p q r s := by
  refine ext_val ?_ ?_
  · rw [lower_hull, lower_hull]
    omega
  · rw [upper_hull, upper_hull]
    omega

theorem hull_exchange_within : hull q p s r = hull p q r s := by
  refine ext_val ?_ ?_
  · rw [lower_hull, lower_hull]
    omega
  · rw [upper_hull, upper_hull]
    omega

/-- The bounds of a hull are among the four words, so what holds of these holds of the bounds. -/
theorem bounds_of_words {P : Word w → Prop} {p q r s : Word w} (hp : P p) (hq : P q) (hr : P r) (hs : P s) :
    P (hull p q r s).lower ∧ P (hull p q r s).upper := by
  have hmin : ∀ {u v : Word w}, P u → P v → P (min u v) := fun hu hv => by
    simp only [min]
    split
    · exact hu
    · exact hv
  have hmax : ∀ {u v : Word w}, P u → P v → P (max u v) := fun hu hv => by
    simp only [max]
    split
    · exact hv
    · exact hu
  exact ⟨hmin (hmin hp hq) (hmin hr hs), hmax (hmax hp hq) (hmax hr hs)⟩

end Words

/-! ### Four corners -/

/-- The least interval that holds the values at the four corners, each brought into the width. -/
def cornerHull (f : Int → Int → Int) (a b : Interval w) : Interval w :=
  hull (.wrap w (f a.lower.val b.lower.val)) (.wrap w (f a.lower.val b.upper.val))
    (.wrap w (f a.upper.val b.lower.val)) (.wrap w (f a.upper.val b.upper.val))

/-- What encloses everything encloses the corners: these fit, and so they are attained. -/
theorem Hull.of_cornerHull (ha : a.isProper = true) (hb : b.isProper = true)
    (hall : ∀ x y, a.Holds x → b.Holds y → (cornerHull f a b).Holds (f x y)) : Hull f a b (cornerHull f a b) := by
  have hcorner : ∀ {x y}, a.Holds x → b.Holds y → Attained f a b (.wrap w (f x y)) := fun {x y} hx hy =>
    ⟨x, y, hx, hy, (Word.val_wrap_of_fits (hall x y hx hy).fits).symm⟩
  obtain ⟨hlower, hupper⟩ := bounds_of_words (hcorner (holds_lower ha) (holds_lower hb))
    (hcorner (holds_lower ha) (holds_upper hb)) (hcorner (holds_upper ha) (holds_lower hb))
    (hcorner (holds_upper ha) (holds_upper hb))
  exact ⟨hall, hlower, hupper⟩

theorem cornerHull_isProper (f : Int → Int → Int) (a b : Interval w) : (cornerHull f a b).isProper = true :=
  hull_isProper ..

theorem cornerHull_swap_left (f : Int → Int → Int) (a b : Interval w) : cornerHull f a.swap b = cornerHull f a b :=
  hull_exchange_pairs ..

theorem cornerHull_swap_right (f : Int → Int → Int) (a b : Interval w) : cornerHull f a b.swap = cornerHull f a b :=
  hull_exchange_within ..

/-! ### Products -/

theorem mul_eq_cornerHull (a b : Interval w) : a * b = cornerHull (· * ·) a b := rfl

theorem swap_mul (a b : Interval w) : a.swap * b = a * b := cornerHull_swap_left ..

theorem mul_swap (a b : Interval w) : a * b.swap = a * b := cornerHull_swap_right ..

theorem mul_isProper (a b : Interval w) : (a * b).isProper = true := cornerHull_isProper ..

theorem mul_holds (hfit : ∀ z ∈ Operator.multiply.corners a b, w.Fits z) {x y : Int} (hx : a.Holds x)
    (hy : b.Holds y) : (a * b).Holds (x * y) := by
  have hsafe : Operator.multiply.Safe a b := ⟨hfit, fun h => by cases h⟩
  exact hsafe.holds_exact hx hy rfl rfl

theorem mul_hull (ha : a.isProper = true) (hb : b.isProper = true)
    (hfit : ∀ z ∈ Operator.multiply.corners a b, w.Fits z) : Hull (· * ·) a b (a * b) := by
  rw [mul_eq_cornerHull]
  exact .of_cornerHull ha hb fun x y hx hy => mul_holds hfit hx hy

/-- The product of proper intervals whose four corners fit holds every product of their integers, none of
    which leaves the width, and its bounds are such products: no smaller interval holds them all. Any
    product, of whatever bounds, is proper and is the same for operands with their bounds exchanged. -/
theorem mul_is_exact_hull (a b : Interval w) :
    (a.isProper = true → b.isProper = true → (∀ z ∈ Operator.multiply.corners a b, w.Fits z) →
      (∀ x y, a.Holds x → b.Holds y → w.Fits (x * y) ∧ (a * b).Holds (x * y)) ∧
      (∃ x y, a.Holds x ∧ b.Holds y ∧ x * y = (a * b).lower.val) ∧
      (∃ x y, a.Holds x ∧ b.Holds y ∧ x * y = (a * b).upper.val) ∧
      ∀ lo hi, (∀ x y, a.Holds x → b.Holds y → lo ≤ x * y ∧ x * y ≤ hi) →
        lo ≤ (a * b).lower.val ∧ (a * b).upper.val ≤ hi) ∧
    (a * b).isProper = true ∧ a.swap * b = a * b ∧ a * b.swap = a * b := by
  refine ⟨fun ha hb hfit => ?_, mul_isProper a b, swap_mul a b, mul_swap a b⟩
  have h := mul_hull ha hb hfit
  refine ⟨fun x y hx hy => ?_, h.lower, h.upper, fun lo hi => h.smallest⟩
  have hz := h.encloses x y hx hy
  exact ⟨hz.fits, hz⟩

/-- Both operands straddle zero, and the interior point `(-1, 2)` is no corner. -/
theorem mul_is_exact_hull_around_zero :
    let a : Interval .w8 := ⟨.wrap .w8 (-3), .wrap .w8 5⟩
    let b : Interval .w8 := ⟨.wrap .w8 (-7), .wrap .w8 4⟩
    (a.isProper = true ∧ b.isProper = true ∧ ∀ z ∈ Operator.multiply.corners a b, Width.w8.Fits z) ∧
      (a * b).lower.val = -35 ∧ (a * b).upper.val = 21 ∧ (a * b).Holds (-1 * 2) ∧
      ∃ x y, a.Holds x ∧ b.Holds y ∧ x * y = (a * b).lower.val := by
  intro a b
  have hfit : ∀ z ∈ Operator.multiply.corners a b, Width.w8.Fits z := by decide
  obtain ⟨hexact, -⟩ := mul_is_exact_hull a b
  obtain ⟨hall, hlower, -⟩ := hexact (by decide) (by decide) hfit
  exact ⟨⟨by decide, by decide, hfit⟩, by decide, by decide, (hall (-1) 2 (by decide) (by decide)).2, hlower⟩

/-! ### Quotients -/

section Quotients
variable (ha : a.isProper = true) (hb : b.isProper = true) (hzero : 0 < b.lower.val ∨ b.upper.val < 0)
  (hwrap : ¬(a.lower.val = w.least ∧ b.upper.val = -1))
include hzero hwrap

/-- The least integer can only be the lower bound, and minus one only the upper bound of the divisor. -/
theorem fits_quotient {x y : Int} (hx : a.Holds x) (hy : b.Holds y) : w.Fits (x.tdiv y) := by
  unfold Holds at hy
  refine Width.fits_tdiv hx.fits (by omega) ?_
  rintro ⟨rfl, rfl⟩
  have hleast := a.lower.fits.1
  have hlower := hx.1
  exact hwrap ⟨by omega, by omega⟩

include ha hb

theorem div_safe : Operator.divide.Safe a b where
  corners_fit := by
    have hfit := fun {x y} => fits_quotient (a := a) (b := b) hzero hwrap (x := x) (y := y)
    simp only [Operator.corners, List.forall_mem_cons]
    exact ⟨hfit (holds_lower ha) (holds_lower hb), hfit (holds_lower ha) (holds_upper hb),
      hfit (holds_upper ha) (holds_lower hb), hfit (holds_upper ha) (holds_upper hb), by simp⟩
  divisor := by
    intro _ h
    unfold Holds at h
    omega

theorem div_hull : ∃ c, a.div b = .ok c ∧ Hull Int.tdiv a b c := by
  have hb' := holds_lower hb
  unfold Holds at hb'
  have hdiv : a.div b = .ok (cornerHull Int.tdiv a b) := div_eq_ok (by omega) (by omega)
  refine ⟨_, hdiv, .of_cornerHull ha hb fun x y hx hy => ?_⟩
  have hsafe := div_safe ha hb hzero hwrap
  have hy0 : y ≠ 0 := by
    rintro rfl
    exact hsafe.divisor rfl hy
  exact hsafe.holds_exact hx hy hdiv (if_neg hy0)

end Quotients

/-- Take proper intervals, the divisor away from zero, and leave out the quotient of the least integer by
    minus one. Division is defined, its result holds the quotient, rounded toward zero, of any two integers
    inside, none of which leaves the width, and its bounds are such quotients. -/
theorem div_is_exact_hull (a b : Interval w) (ha : a.isProper = true) (hb : b.isProper = true)
    (hzero : 0 < b.lower.val ∨ b.upper.val < 0) (hwrap : ¬(a.lower.val = w.least ∧ b.upper.val = -1)) :
    ∃ c, a.div b = .ok c ∧
      (∀ x y, a.Holds x → b.Holds y → w.Fits (x.tdiv y) ∧ c.Holds (x.tdiv y)) ∧
      (∃ x y, a.Holds x ∧ b.Holds y ∧ x.tdiv y = c.lower.val) ∧
      (∃ x y, a.Holds x ∧ b.Holds y ∧ x.tdiv y = c.upper.val) ∧
      ∀ lo hi, (∀ x y, a.Holds x → b.Holds y → lo ≤ x.tdiv y ∧ x.tdiv y ≤ hi) →
        lo ≤ c.lower.val ∧ c.upper.val ≤ hi := by
  obtain ⟨c, hc, h⟩ := div_hull ha hb hzero hwrap
  refine ⟨c, hc, fun x y hx hy => ?_, h.lower, h.upper, fun lo hi => h.smallest⟩
  exact ⟨fits_quotient hzero hwrap hx hy, h.encloses x y hx hy⟩

/-- The least integer divided by negative ones, the greatest of which is minus two; the dividend straddles
    zero, so both bounds of the quotient come from that divisor. -/
theorem div_is_exact_hull_of_least :
    let a : Interval .w8 := ⟨.wrap .w8 (-128), .wrap .w8 100⟩
    let b : Interval .w8 := ⟨.wrap .w8 (-7), .wrap .w8 (-2)⟩
    (a.isProper = true ∧ b.isProper = true ∧ b.upper.val < 0 ∧
        ¬(a.lower.val = Width.w8.least ∧ b.upper.val = -1)) ∧
      ∃ c, a.div b = .ok c ∧ c.lower.val = -50 ∧ c.upper.val = 64 ∧ c.Holds (Int.tdiv (-127) (-3)) ∧
        ∃ x y, a.Holds x ∧ b.Holds y ∧ x.tdiv y = c.lower.val := by
  intro a b
  have hwrap : ¬(a.lower.val = Width.w8.least ∧ b.upper.val = -1) := by decide
  obtain ⟨c, hc, hall, hlower, -⟩ := div_is_exact_hull a b (by decide) (by decide) (Or.inr (by decide)) hwrap
  obtain ⟨-, hinside⟩ := hall (-127) (-3) (by decide) (by decide)
  refine ⟨⟨by decide, by decide, by decide, hwrap⟩, c, hc, ?_, ?_, hinside, hlower⟩
  · cases hc
    decide
  · cases hc
    decide

end TypedArrays.Interval
