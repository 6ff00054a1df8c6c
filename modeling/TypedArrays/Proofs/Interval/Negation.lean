import TypedArrays.Proofs.Interval.Hull
import TypedArrays.Proofs.Interval.Stepping
import TypedArrays.Proofs.Residue

/-! Negated intervals.

Negation takes the opposite of each bound in place, so it commutes with all that is done bound by bound, and the
signs cancel in products of bounds. The least word is its own opposite. This leaves the laws as they are, but not
the order of bounds: negation turns the order around, except that a least lower bound stays below everything. -/

namespace TypedArrays

/-! ### Opposite words -/

namespace Word
variable {w : Width} {a : Word w}

protected theorem neg_neg (a : Word w) : -(-a) = a := by
  rw [← wrap_val a, wrap_neg, wrap_neg, Int.neg_neg]

theorem neg_add_neg (a b : Word w) : -a + -b = -(a + b) := by
  rw [← wrap_val a, ← wrap_val b, wrap_neg, wrap_neg, wrap_add, wrap_add, wrap_neg, Int.neg_add]

theorem sub_eq_add_neg (a b : Word w) : a - b = a + -b := by
  rw [← wrap_val a, ← wrap_val b, wrap_neg, wrap_sub, wrap_add, Int.sub_eq_add_neg]

theorem neg_sub_neg (a b : Word w) : -a - -b = -(a - b) := by
  rw [sub_eq_add_neg, sub_eq_add_neg, neg_add_neg]

protected theorem neg_mul_neg (a b : Word w) : -a * -b = a * b := by
  rw [← wrap_val a, ← wrap_val b, wrap_neg, wrap_neg, wrap_mul, wrap_mul, Int.neg_mul_neg]

theorem val_neg_of_least (h : a.val = w.least) : (-a).val = w.least := by
  rw [val_neg, h]
  cases w <;> decide

theorem val_neg_of_ne (h : a.val ≠ w.least) : (-a).val = -a.val := by
  have hleast := w.least_eq
  obtain ⟨hlower, hupper⟩ := a.fits
  exact Width.bmod_of_fits ⟨by omega, by omega⟩

end Word

namespace Interval
variable {w : Width} {a : Interval w}

/-! ### Laws -/

theorem neg_mul_neg (a b : Interval w) : -a * -b = a * b := by
  show hull (-a.lower * -b.lower) (-a.lower * -b.upper) (-a.upper * -b.lower) (-a.upper * -b.upper) = _
  simp only [Word.neg_mul_neg]
  rfl

theorem isProper_iff : a.isProper = true ↔ a.lower.val ≤ a.upper.val := decide_eq_true_iff

theorem neg_isProper_iff (a : Interval w) :
    (-a).isProper = true ↔ a.lower.val = w.least ∨ a.upper.val ≠ w.least ∧ a.upper ≤ a.lower := by
  rw [isProper_iff, Word.le_def]
  show (-a.lower).val ≤ (-a.upper).val ↔ _
  by_cases hl : a.lower.val = w.least
  · rw [Word.val_neg_of_least hl]
    exact ⟨fun _ => Or.inl hl, fun _ => (-a.upper).fits.1⟩
  by_cases hu : a.upper.val = w.least
  · -- No opposite other than that of the least word is as low as the least word.
    have hleast := w.least_eq
    have hgreatest := a.lower.fits.2
    rw [Word.val_neg_of_least hu, Word.val_neg_of_ne hl]
    simp only [hl, hu, ne_eq, not_true_eq_false, false_and, or_false, iff_false]
    omega
  · rw [Word.val_neg_of_ne hl, Word.val_neg_of_ne hu]
    simp [hl, hu]

/-! ### Ranges -/

section Ranges
open Progression
variable {step : Word w} (hlt : a.lower < a.upper)
include hlt

theorem count_neg_of_ne (hl : a.lower.val ≠ w.least) : count (-a).lower (-a).upper step = 0 := by
  refine count_of_not_le fun hle => ?_
  rcases (neg_isProper_iff a).mp (decide_eq_true hle) with h | ⟨-, h⟩
  · exact hl h
  · exact Int.not_le.mpr hlt h

/-- Only the two lowest words of the widest width have a negated interval of all words. -/
theorem allWords_neg_iff (hl : a.lower.val = w.least) :
    AllWords (-a).lower (-a).upper step ↔ w = .w64 ∧ a.upper.val = w.least + 1 ∧ step.val = 1 := by
  have hleast := w.least_eq
  have hne : a.upper.val ≠ w.least := by
    rw [← hl]
    exact Int.ne_of_gt hlt
  have hlower : (-a).lower.val = w.least := Word.val_neg_of_least hl
  have hupper : (-a).upper.val = w.greatest ↔ a.upper.val = w.least + 1 := by
    show (-a.upper).val = _ ↔ _
    rw [Word.val_neg_of_ne hne]
    omega
  simp only [AllWords, hlower, hupper, true_and]

theorem count_neg_pos (hl : a.lower.val = w.least) (hstep : 1 ≤ step.val)
    (hcut : ¬(w = .w64 ∧ a.upper.val = w.least + 1 ∧ step.val = 1)) : 0 < count (-a).lower (-a).upper step := by
  have hle : (-a).lower.val ≤ (-a).upper.val := isProper_iff.mp ((neg_isProper_iff a).mpr (Or.inl hl))
  have hcount := count_eq_whole_steps hle hstep fun h => hcut ((allWords_neg_iff hlt hl).mp h)
  have hpos : 0 ≤ ((-a).upper.val - (-a).lower.val) / step.val := Int.ediv_nonneg (Int.sub_nonneg_of_le hle) (by omega)
  omega

end Ranges

/-- Negation of intervals with any bounds, where all arithmetic wraps. It is its own inverse, it goes through sums
    and differences, it cancels in products, and a difference is the sum with the negated subtrahend, its bounds
    exchanged. The negation is proper if the lower bound is least, and otherwise if the bounds stand the other way
    round and the upper one is not least. So if the bounds are strictly in order, the negation has no words, in
    whatever steps, unless the lower bound is least. Then it has words, from the least one on, in any steps but one:
    the negation of the two lowest words of the widest width, one by one, has its count cut to zero. -/
theorem neg_laws_and_ranges (a b : Interval w) :
    -(-a) = a ∧ -a + -b = -(a + b) ∧ -a - -b = -(a - b) ∧ -a * -b = a * b ∧ a - b = a + (-b).swap ∧
    ((-a).isProper = true ↔ a.lower.val = w.least ∨ a.upper.val ≠ w.least ∧ a.upper ≤ a.lower) ∧
    (a.lower < a.upper → ∀ step : Word w, 1 ≤ step.val → ∃ p, (-a).stepped step = .ok p ∧
      (a.lower.val ≠ w.least → p.remaining = 0 ∧ p.Gives []) ∧
      (a.lower.val = w.least → ¬(w = .w64 ∧ a.upper.val = w.least + 1 ∧ step.val = 1) →
        0 < p.remaining ∧ ∃ x xs, p.Gives (x :: xs) ∧ x.val = w.least) ∧
      (a.lower.val = w.least → w = .w64 ∧ a.upper.val = w.least + 1 ∧ step.val = 1 →
        ((-a).upper.val - (-a).lower.val) / step.val + 1 = Progression.countLimit ∧ p.remaining = 0 ∧ p.Gives [])) := by
  refine ⟨?_, ?_, ?_, neg_mul_neg a b, ?_, neg_isProper_iff a, fun hlt step hstep => ?_⟩
  · exact congrArg₂ Interval.mk (Word.neg_neg _) (Word.neg_neg _)
  · exact congrArg₂ Interval.mk (Word.neg_add_neg _ _) (Word.neg_add_neg _ _)
  · exact congrArg₂ Interval.mk (Word.neg_sub_neg _ _) (Word.neg_sub_neg _ _)
  · exact congrArg₂ Interval.mk (Word.sub_eq_add_neg _ _) (Word.sub_eq_add_neg _ _)
  · refine ⟨_, stepped_of_le hstep, fun hl => ?_, fun hl hcut => ?_, fun hl hcut => ?_⟩
    · have hcount : Progression.count (-a).lower (-a).upper step = 0 := count_neg_of_ne hlt hl
      exact ⟨hcount, Progression.ofBounds_gives_nil hcount⟩
    · have hcount := count_neg_pos hlt hl hstep hcut
      obtain ⟨xs, hgives⟩ := Progression.ofBounds_gives_first hstep hcount
      exact ⟨hcount, _, xs, hgives, Word.val_neg_of_least hl⟩
    · obtain ⟨hsteps, hcount⟩ := Progression.count_of_allWords ((allWords_neg_iff hlt hl).mpr hcut)
      exact ⟨hsteps, hcount, Progression.ofBounds_gives_nil hcount⟩

/-- From the least word up, the negation still goes up from the least word; from 2 to 5 it has no words. The two
    lowest words of the widest width are negated to all words, too many to be counted one by one. -/
theorem neg_laws_and_ranges_of_least :
    let a : Interval .w8 := ⟨.wrap .w8 (-128), .wrap .w8 5⟩
    let b : Interval .w8 := ⟨.wrap .w8 2, .wrap .w8 5⟩
    let c : Interval .w64 := ⟨.wrap .w64 Width.w64.least, .wrap .w64 (Width.w64.least + 1)⟩
    (a.lower < a.upper ∧ b.lower < b.upper ∧ c.lower < c.upper) ∧ -a * -b = a * b ∧ (-a).isProper = true ∧
      (∃ p, (-a).stepped (.wrap .w8 100) = .ok p ∧ p.remaining = 2 ∧
        ∃ x xs, p.Gives (x :: xs) ∧ x.val = Width.w8.least) ∧
      (∃ p, (-b).stepped 1 = .ok p ∧ p.Gives []) ∧
      ∃ p, (-c).stepped 1 = .ok p ∧ p.remaining = 0 ∧ p.Gives [] := by
  intro a b c
  obtain ⟨-, -, -, hmul, -, hproper, hranges⟩ := neg_laws_and_ranges a b
  obtain ⟨p, hp, -, hwords, -⟩ := hranges (by decide) (.wrap .w8 100) (by decide)
  obtain ⟨-, hfirst⟩ := hwords (by decide) (by decide)
  obtain ⟨-, -, -, -, -, -, hranges'⟩ := neg_laws_and_ranges b b
  obtain ⟨q, hq, hnone, -⟩ := hranges' (by decide) 1 (by decide)
  obtain ⟨-, -, -, -, -, -, hranges''⟩ := neg_laws_and_ranges c c
  obtain ⟨r, hr, -, -, hcut⟩ := hranges'' (by decide) 1 (by decide)
  obtain ⟨-, hzero⟩ := hcut (by decide) (by decide)
  have htwo : p.remaining = 2 := by
    cases hp
    decide
  exact ⟨by decide, hmul, hproper.mpr (by decide), ⟨p, hp, htwo, hfirst⟩, ⟨q, hq, (hnone (by decide)).2⟩, r, hr, hzero⟩

end Interval

end TypedArrays
