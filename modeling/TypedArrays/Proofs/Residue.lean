import Mathlib.Data.Int.ModEq
import TypedArrays.Proofs.Operator

/-! Words as residues.

Of the integers that differ by multiples of the number of bit patterns exactly one is a word
(`modEq_iff_eq_wrap`), so wrapped arithmetic is exact arithmetic up to such multiples. Repeated squaring
then gives the exact power, whatever the exponent and however often the squares wrap. A negative exponent
asks for a reciprocal, which rounds to zero unless the base is one or minus one. -/

namespace TypedArrays.Word

variable {w : Width} {a b v : Word w} {x : Int}

theorem wrap_modEq (w : Width) (x : Int) : (wrap w x).val ≡ x [ZMOD w.modulus] := Int.bmod_emod

theorem eq_of_modEq (h : a.val ≡ b.val [ZMOD w.modulus]) : a = b := by
  apply ext_val
  rw [← Width.bmod_of_fits a.fits, ← Width.bmod_of_fits b.fits, ← Int.emod_bmod a.val, h, Int.emod_bmod]

theorem modEq_iff_eq_wrap : a.val ≡ x [ZMOD w.modulus] ↔ a = wrap w x := by
  constructor
  · intro h
    exact eq_of_modEq (h.trans (wrap_modEq w x).symm)
  · rintro rfl
    exact wrap_modEq w x

theorem mul_modEq (a b : Word w) : (a * b).val ≡ a.val * b.val [ZMOD w.modulus] := wrap_modEq w _

theorem wrap_add (x y : Int) : wrap w x + wrap w y = wrap w (x + y) :=
  modEq_iff_eq_wrap.mp ((wrap_modEq w _).trans ((wrap_modEq w x).add (wrap_modEq w y)))

theorem wrap_sub (x y : Int) : wrap w x - wrap w y = wrap w (x - y) :=
  modEq_iff_eq_wrap.mp ((wrap_modEq w _).trans ((wrap_modEq w x).sub (wrap_modEq w y)))

theorem wrap_mul (x y : Int) : wrap w x * wrap w y = wrap w (x * y) :=
  modEq_iff_eq_wrap.mp ((mul_modEq _ _).trans ((wrap_modEq w x).mul (wrap_modEq w y)))

theorem wrap_neg (x : Int) : -wrap w x = wrap w (-x) :=
  modEq_iff_eq_wrap.mp ((wrap_modEq w _).trans (wrap_modEq w x).neg)

/-! ### Powers -/

/-- The square is wrapped before it is raised, which changes it by a multiple of the number of patterns. -/
theorem pow_half_modEq {rest : Word w} {n : Nat} (h : rest.val ≡ (b * b).val ^ (n / 2) [ZMOD w.modulus]) :
    rest.val ≡ b.val ^ (2 * (n / 2)) [ZMOD w.modulus] := by
  have hsquare : (b * b).val ^ (n / 2) ≡ (b.val ^ 2) ^ (n / 2) [ZMOD w.modulus] := by
    rw [pow_two]
    exact (mul_modEq b b).pow _
  rw [pow_mul]
  exact h.trans hsquare

theorem pow_modEq (b : Word w) (n : Nat) : (b.pow n).val ≡ b.val ^ n [ZMOD w.modulus] := by
  fun_induction pow b n with
  | case1 b => rw [pow_zero, val_one]
  | case2 b n hn rest hodd ih =>
    have hrest := pow_half_modEq ih
    have hsplit : n = 2 * (n / 2) + 1 := by omega
    calc (b * rest).val ≡ b.val * rest.val [ZMOD w.modulus] := mul_modEq b rest
      _ ≡ b.val * b.val ^ (2 * (n / 2)) [ZMOD w.modulus] := hrest.mul_left _
      _ = b.val ^ n := by rw [← pow_succ', ← hsplit]
  | case3 b n hn rest heven ih =>
    have hsplit : 2 * (n / 2) = n := by omega
    have hrest := pow_half_modEq ih
    rw [hsplit] at hrest
    exact hrest

theorem pow_add (b : Word w) (m n : Nat) : b.pow (m + n) = b.pow m * b.pow n := by
  apply eq_of_modEq
  calc (b.pow (m + n)).val ≡ b.val ^ (m + n) [ZMOD w.modulus] := pow_modEq b (m + n)
    _ = b.val ^ m * b.val ^ n := Int.pow_add ..
    _ ≡ (b.pow m).val * (b.pow n).val [ZMOD w.modulus] := ((pow_modEq b m).mul (pow_modEq b n)).symm
    _ ≡ (b.pow m * b.pow n).val [ZMOD w.modulus] := (mul_modEq _ _).symm

/-! ### Signed exponents -/

theorem power_of_nonneg (h : 0 ≤ v.val) : Word.scalar.power b v = .ok (b.pow v.val.toNat) := by
  simp only [scalar, power?, if_pos h, Option.elim]

theorem power_eq_error_iff {trap : Trap} :
    Word.scalar.power b v = .error trap ↔ (b.val = 0 ∧ v.val < 0) ∧ trap = .divideByZero := by
  rw [scalar, elim_eq_error_iff, power?_eq_none_iff, eq_comm (a := Trap.divideByZero)]

theorem one_tdiv_of_one_lt {m : Int} (h : 1 < m.natAbs) : Int.tdiv 1 m = 0 := by
  rw [← Int.natAbs_eq_zero, Int.natAbs_tdiv]
  exact Nat.div_eq_of_lt h

/-- The table for negative exponents gives the reciprocals of powers, rounded toward zero. -/
theorem power_of_neg (hb : b.val ≠ 0) (hv : v.val < 0) :
    ∃ r, Word.scalar.power b v = .ok r ∧ r.val = Int.tdiv 1 (b.val ^ v.val.natAbs) := by
  have hv' : ¬0 ≤ v.val := by omega
  simp only [scalar, power?, if_neg hv', if_neg hb]
  by_cases hone : b.val = 1
  · rw [if_pos hone, hone, one_pow]
    exact ⟨1, rfl, val_one w⟩
  by_cases hminus : b.val = -1
  · rw [if_neg hone, if_pos hminus, hminus]
    have hvalue : (-1 : Word w).val = -1 := by cases w <;> rfl
    by_cases heven : v.val % 2 = 0
    · have hpow : Even v.val.natAbs := by
        rw [Nat.even_iff]
        omega
      rw [if_pos heven, hpow.neg_one_pow]
      exact ⟨1, rfl, val_one w⟩
    · have hpow : Odd v.val.natAbs := by
        rw [Nat.odd_iff]
        omega
      rw [if_neg heven, hpow.neg_one_pow]
      exact ⟨-1, rfl, hvalue⟩
  · -- Any other base has powers further from zero than one.
    rw [if_neg hone, if_neg hminus, one_tdiv_of_one_lt]
    · exact ⟨0, rfl, by cases w <;> rfl⟩
    · rw [Int.natAbs_pow]
      exact Nat.one_lt_pow (by omega) (by omega)

/-- For every base and exponent of 32 bits. With an exponent that is not negative, the power is the one word
    that differs from the exact power by a multiple of `2 ^ 32`. With a negative exponent it is the reciprocal
    of the exact power, rounded toward zero, and traps as a division by zero exactly for the base zero. Hence
    exponents add up as long as their sum is a word. -/
theorem power_at_every_exponent (b v : Word .w32) :
    (0 ≤ v.val → ∃ r, Word.scalar.power b v = .ok r ∧
      ∀ y : Word .w32, y.val ≡ b.val ^ v.val.toNat [ZMOD 2 ^ 32] ↔ y = r) ∧
    (v.val < 0 → b.val ≠ 0 → ∃ r, Word.scalar.power b v = .ok r ∧ r.val = Int.tdiv 1 (b.val ^ v.val.natAbs)) ∧
    (∀ trap, Word.scalar.power b v = .error trap ↔ (b.val = 0 ∧ v.val < 0) ∧ trap = .divideByZero) ∧
    Trap.divideByZero.message = "attempt to divide by zero" ∧
    ∀ m n : Word .w32, 0 ≤ m.val → 0 ≤ n.val → m.val + n.val ≤ Width.w32.greatest →
      (m + n).val = m.val + n.val ∧ ∃ p q, Word.scalar.power b m = .ok p ∧ Word.scalar.power b n = .ok q ∧
        Word.scalar.power b (m + n) = .ok (p * q) := by
  refine ⟨fun hv => ?_, fun hv hb => power_of_neg hb hv, fun trap => power_eq_error_iff, rfl, fun m n hm hn hsum => ?_⟩
  · refine ⟨_, power_of_nonneg hv, fun y => ?_⟩
    rw [modEq_iff_eq_wrap.mp (pow_modEq b v.val.toNat)]
    exact modEq_iff_eq_wrap
  · have hleast := Width.w32.least_eq
    have hpos := Width.w32.greatest_pos
    have hval : (m + n).val = m.val + n.val := Width.bmod_of_fits ⟨by omega, hsum⟩
    refine ⟨hval, _, _, power_of_nonneg hm, power_of_nonneg hn, ?_⟩
    rw [power_of_nonneg (by omega), hval, Int.toNat_add hm hn, pow_add]

/-- `3 ^ 21` wraps twice, and minus one to the least exponent is one. -/
theorem power_at_every_exponent_of_least :
    (∃ r : Word .w32, Word.scalar.power (.wrap .w32 3) (.wrap .w32 21) = .ok r ∧ .wrap .w32 1870418611 = r) ∧
      let v : Word .w32 := .wrap .w32 Width.w32.least
      v.val < 0 ∧ ∃ r : Word .w32, Word.scalar.power (.wrap .w32 (-1)) v = .ok r ∧
        r.val = Int.tdiv 1 ((-1) ^ v.val.natAbs) ∧ r = 1 := by
  obtain ⟨hexact, -⟩ := power_at_every_exponent (.wrap .w32 3) (.wrap .w32 21)
  obtain ⟨r, hr, hunique⟩ := hexact (by decide)
  refine ⟨⟨r, hr, (hunique _).mp (by decide)⟩, ?_⟩
  intro v
  have hv : v.val < 0 := by decide
  obtain ⟨-, hreciprocal, -⟩ := power_at_every_exponent (.wrap .w32 (-1)) v
  obtain ⟨r, hr, hvalue⟩ := hreciprocal hv (by decide)
  refine ⟨hv, r, hr, hvalue, ?_⟩
  cases hr
  rfl

end TypedArrays.Word
