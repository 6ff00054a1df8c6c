import TypedArrays.Proofs.Integers

/-! Quotients and remainders of integer containers.

A quotient is rounded toward zero and a remainder is what is missing from the dividend, so the remainder has
the sign of the dividend and is nearer to zero than the divisor. Quotient times divisor plus remainder is the
dividend even where the quotient wraps, because products and sums wrap along with it. -/

namespace TypedArrays

/-! ### Words -/

section Words
variable {w : Width} {x y : Int} (hx : w.Fits x) (hy : w.Fits y) (hne : y ≠ 0)

theorem natAbs_tmod_lt (hne : y ≠ 0) : (x.tmod y).natAbs < y.natAbs := by
  rw [Int.natAbs_tmod]
  exact Nat.mod_lt _ (Int.natAbs_pos.mpr hne)

theorem tmod_eq_zero_or_sign_eq (x y : Int) : x.tmod y = 0 ∨ (x.tmod y).sign = x.sign := by
  by_cases h : y ∣ x
  · exact Or.inl (Int.tmod_eq_zero_of_dvd h)
  · exact Or.inr (by rw [Int.sign_tmod, if_neg h])

include hy hne

/-- A remainder always fits, since it is nearer to zero than the divisor. -/
theorem Width.fits_tmod : w.Fits (x.tmod y) := by
  have hlt := natAbs_tmod_lt (x := x) hne
  have hleast := w.least_eq
  obtain ⟨hlower, hupper⟩ := hy
  constructor <;> omega

include hx

theorem Arithmetic.divide_wrap :
    divide.onWords (Word.wrap w x) (Word.wrap w y) = .ok (Word.wrap w (x.tdiv y)) := by
  simp [onWords, apply, Word.scalar, Word.quotient?, Word.val_wrap_of_fits hx, Word.val_wrap_of_fits hy, hne]

theorem Arithmetic.modulus_wrap :
    modulus.onWords (Word.wrap w x) (Word.wrap w y) = .ok (Word.wrap w (x.tmod y)) := by
  simp [onWords, apply, Word.scalar, Word.remainder?, Word.val_wrap_of_fits hx, Word.val_wrap_of_fits hy, hne]

end Words

/-! ### Containers -/

namespace Form
variable {f : Form} {shape : f.Shape} {a b q r p s : f.Carrier}

/-- Take integer containers of one shape, some of them to write to. If the divisor holds no zero, quotient and
    remainder are computed, and quotient times divisor plus remainder is the dividend again, also for the least
    integer by minus one. At every place the remainder is zero or has the sign of the dividend, and it is
    nearer to zero than the divisor. If the divisor holds a zero, both calls trap. -/
theorem quotient_and_remainder_rebuild (h : ∀ c ∈ [a, b, q, r, p, s], f.IsInteger shape c) :
    ((∀ i < f.lanes shape, f.integerAt b i ≠ 0) → ∃ quotient remainder product,
      f.arithmetic (some .integer) .divide q a b = ⟨quotient, none⟩ ∧
      f.arithmetic (some .integer) .modulus r a b = ⟨remainder, none⟩ ∧
      f.arithmetic (some .integer) .multiply p quotient b = ⟨product, none⟩ ∧
      f.arithmetic (some .integer) .add s product remainder = ⟨a, none⟩ ∧
      f.IsInteger shape remainder ∧ ∀ i < f.lanes shape,
        (f.integerAt remainder i = 0 ∨ (f.integerAt remainder i).sign = (f.integerAt a i).sign) ∧
        (f.integerAt remainder i).natAbs < (f.integerAt b i).natAbs) ∧
    ((∃ i < f.lanes shape, f.integerAt b i = 0) →
      (f.arithmetic (some .integer) .divide q a b).halt = some (.trap .divideByZero) ∧
      (f.arithmetic (some .integer) .modulus r a b).halt = some (.trap .remainderByZero)) := by
  simp only [List.forall_mem_cons] at h
  obtain ⟨ha, hb, hq, hr, hp, hs, -⟩ := h
  refine ⟨fun hne => ?_, fun ⟨i, hi, hzero⟩ => ?_⟩
  · have hquotient := arithmetic_ofIntegers hq .divide fun i hi =>
      Arithmetic.divide_wrap (fits_integerAt a i) (fits_integerAt b i) (hne i hi)
    have hremainder := arithmetic_ofIntegers hr .modulus fun i hi =>
      Arithmetic.modulus_wrap (fits_integerAt a i) (fits_integerAt b i) (hne i hi)
    have hproduct := arithmetic_ofIntegers hp .multiply fun i _ =>
      congrArg Except.ok (Word.wrap_mul ((f.integerAt a i).tdiv (f.integerAt b i)) (f.integerAt b i))
    have hsum := arithmetic_ofIntegers hs .add fun i _ => congrArg Except.ok (Word.wrap_add
      ((f.integerAt a i).tdiv (f.integerAt b i) * f.integerAt b i) ((f.integerAt a i).tmod (f.integerAt b i)))
    -- Neither product nor sum was asked to fit: the exact sum is the dividend, and it does.
    simp only [Int.tdiv_mul_add_tmod] at hsum
    rw [← ha.eq_ofIntegers, ← hb.eq_ofIntegers] at hquotient hremainder
    rw [← hb.eq_ofIntegers] at hproduct
    rw [← ha.eq_ofIntegers] at hsum
    refine ⟨_, _, _, hquotient, hremainder, hproduct, hsum, isInteger_ofIntegers hr _, fun i hi => ?_⟩
    rw [integerAt_ofIntegers _ hi, Word.val_wrap_of_fits (Width.fits_tmod (fits_integerAt b i) (hne i hi))]
    exact ⟨tmod_eq_zero_or_sign_eq _ _, natAbs_tmod_lt (hne i hi)⟩
  · exact ⟨arithmetic_of_undefined hq .divide ha hb hi hzero rfl, arithmetic_of_undefined hr .modulus ha hb hi hzero rfl⟩

/-- The least integer by minus one, whose quotient wraps, next to dividends and divisors of either sign; and a
    divisor with a zero in the middle. -/
theorem quotient_and_remainder_rebuild_least :
    let v := fun x y z : Int => Vector.ofArray .integer #[.wrap .w32 x, .wrap .w32 y, .wrap .w32 z]
    let a := v (-2147483648) (-7) 7
    let b := v (-1) 3 (-3)
    let c := v 4 0 1
    let o := v 9 9 9
    ((∀ d ∈ [a, b, o, o, o, o], Form.vector.IsInteger (3 : Nat) d) ∧ ∀ i < 3, Form.vector.integerAt b i ≠ 0) ∧
      (∃ product, Vector.arithmetic .integer .divide o a b = ⟨v (-2147483648) (-2) (-2), none⟩ ∧
        Vector.arithmetic .integer .modulus o a b = ⟨v 0 (-1) 1, none⟩ ∧
        Vector.arithmetic .integer .multiply o (v (-2147483648) (-2) (-2)) b = ⟨product, none⟩ ∧
        Vector.arithmetic .integer .add o product (v 0 (-1) 1) = ⟨a, none⟩) ∧
      (Vector.arithmetic .integer .divide o a c).halt = some (.trap .divideByZero) ∧
      (Vector.arithmetic .integer .modulus o a c).halt = some (.trap .remainderByZero) := by
  intro v a b c o
  have hv : ∀ x y z, Form.vector.IsInteger (3 : Nat) (v x y z) := fun x y z => ⟨trivial, rfl, rfl⟩
  have hall : ∀ x y z, ∀ d ∈ [a, v x y z, o, o, o, o], Form.vector.IsInteger (3 : Nat) d := fun x y z => by
    simp only [List.forall_mem_cons]
    exact ⟨hv _ _ _, hv _ _ _, hv _ _ _, hv _ _ _, hv _ _ _, hv _ _ _, by simp⟩
  have hne : ∀ i < 3, Form.vector.integerAt b i ≠ 0 := by decide
  obtain ⟨quotient, remainder, product, hquotient, hremainder, hproduct, hsum, -⟩ :=
    (quotient_and_remainder_rebuild (f := .vector) (hall (-1) 3 (-3))).1 hne
  obtain ⟨hdivide, hmodulus⟩ := (quotient_and_remainder_rebuild (f := .vector) (hall 4 0 1)).2 ⟨1, by decide, by decide⟩
  cases hquotient
  cases hremainder
  exact ⟨⟨hall _ _ _, hne⟩, ⟨product, rfl, rfl, hproduct, hsum⟩, hdivide, hmodulus⟩

end Form

end TypedArrays
