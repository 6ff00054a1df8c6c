import Mathlib.Data.Rat.Floor
import TypedArrays.Interval
import TypedArrays.Proofs.Cursor

/-! The words of a stepped interval.

A reader who asks for the next word until there is none gets the numbers of the progression's list, in
order (`At.gives`). These are the integers of the interval whose distance from the lower bound is a
multiple of the step, provided that the count was not cut: counts are kept modulo `countLimit`, which
only the words of the widest width, taken one by one from the least to the greatest, reach. -/

namespace TypedArrays

namespace Progression

variable {w : Width} {first step : Int} {n j : Nat} {p : Progression w}

/-- Asking for the next word until there is none gives the words of a list. -/
inductive Gives : Progression w → List (Word w) → Prop where
  | ended {p q : Progression w} (none_left : p.next = (none, q)) : Gives p []
  | word {p q : Progression w} {x : Word w} {xs : List (Word w)} (found : p.next = (some x, q)) (rest : Gives q xs) :
      Gives p (x :: xs)

theorem At.gives (h : At first step n j p) (hs : Spans w first step n) :
    p.Gives (items w first step j (n - j)) := by
  -- Each word moves the cursor by one; the words that are left are what the induction is on.
  obtain ⟨m, hm⟩ : ∃ m, m = n - j := ⟨_, rfl⟩
  induction m generalizing j p with
  | zero =>
    have hnone := h.next_none (by omega)
    rw [← hm]
    exact .ended hnone
  | succ m ih =>
    obtain ⟨x, q, hnext, hx, hq⟩ := h.next_some hs (by omega)
    have hrest := ih hq (by omega)
    have hleft : n - (j + 1) = m := by omega
    have hword : Word.wrap w (item first step j) = x := by rw [← hx, Word.wrap_val]
    rw [hleft] at hrest
    rw [← hm, items_succ, hword]
    exact .word hnext hrest

/-! ### Numbers of the list -/

theorem item_lt_item (hstep : 1 ≤ step) {i k : Nat} (h : i < k) : item first step i < item first step k := by
  have hmul : (i : Int) * step < k * step := Int.mul_lt_mul_of_pos_right (by omega) (by omega)
  unfold item
  omega

theorem items_ascending (hs : Spans w first step n) (hstep : 1 ≤ step) :
    (items w first step 0 n).Pairwise (· < ·) := by
  unfold items
  rw [List.pairwise_map]
  refine (List.pairwise_lt_range' (s := 0) (n := n)).imp_of_mem fun {i k} hi hk hik => ?_
  have hi := List.mem_range'_1.mp hi
  have hk := List.mem_range'_1.mp hk
  rw [Word.lt_def, Word.val_wrap_of_fits (hs i (by omega)), Word.val_wrap_of_fits (hs k (by omega))]
  exact item_lt_item hstep hik

theorem mem_items_iff (hs : Spans w first step n) {x : Int} :
    x ∈ (items w first step 0 n).map Word.val ↔ ∃ k < n, item first step k = x := by
  rw [vals_items hs (by omega)]
  simp [List.mem_range'_1]

/-- The numbers below a bound are those of the list if the list has one for every whole step. -/
theorem item_iff_dvd {last x : Int} (hstep : 1 ≤ step) (hn : (n : Int) = (last - first) / step + 1) :
    (∃ k < n, item first step k = x) ↔ first ≤ x ∧ x ≤ last ∧ step ∣ x - first := by
  unfold item
  constructor
  · rintro ⟨k, hk, rfl⟩
    have hpos : 0 ≤ (k : Int) * step := Int.mul_nonneg (Int.natCast_nonneg k) (by omega)
    have hle : (k : Int) * step ≤ last - first := (Int.le_ediv_iff_mul_le (by omega)).mp (by omega)
    refine ⟨by omega, by omega, k, ?_⟩
    rw [Int.mul_comm]
    omega
  · rintro ⟨hfirst, hlast, m, hm⟩
    have hm0 : 0 ≤ m := Int.nonneg_of_mul_nonneg_right (by omega : 0 ≤ step * m) (by omega)
    have hle : m ≤ (last - first) / step := by
      rw [Int.le_ediv_iff_mul_le (by omega), Int.mul_comm]
      omega
    obtain ⟨k, rfl⟩ := Int.eq_ofNat_of_zero_le hm0
    refine ⟨k, by omega, ?_⟩
    rw [Int.mul_comm]
    omega

/-! ### Counts -/

section Counts
variable {lower upper step : Word w}

theorem count_of_not_le (h : ¬lower ≤ upper) : count lower upper step = 0 := by
  rw [Word.le_def] at h
  exact if_pos (Word.lt_def.mpr (by omega))

theorem count_of_le (h : lower ≤ upper) :
    count lower upper step = ((upper.val - lower.val) / step.val + 1).toNat % countLimit := by
  have hlt : ¬upper < lower := by
    rw [Word.lt_def]
    have := Word.le_def.mp h
    omega
  exact if_neg hlt

theorem modulus_le_countLimit (w : Width) : w.modulus ≤ countLimit := by
  cases w <;> decide

theorem eq_w64_of_countLimit_le (h : countLimit ≤ w.modulus) : w = .w64 := by
  cases w <;> first | rfl | exact absurd h (by decide)

/-- All words of the widest width, one by one. -/
def AllWords (lower upper step : Word w) : Prop :=
  w = .w64 ∧ lower.val = w.least ∧ upper.val = w.greatest ∧ step.val = 1

theorem whole_steps_lt (hstep : 1 ≤ step.val) (hcut : ¬AllWords lower upper step) :
    (upper.val - lower.val) / step.val + 1 < countLimit := by
  have hlimit := modulus_le_countLimit w
  have hmodulus := w.modulus_eq
  have hleast := w.least_eq
  have hgreatest := w.greatest_pos
  obtain ⟨hlower, -⟩ := lower.fits
  obtain ⟨-, hupper⟩ := upper.fits
  by_cases hone : step.val = 1
  · rw [hone, Int.ediv_one]
    by_cases hspan : upper.val - lower.val + 1 < countLimit
    · exact hspan
    · refine absurd ⟨eq_w64_of_countLimit_le (by omega), by omega, by omega, hone⟩ hcut
  · -- A step of two or more leaves at most every other word.
    have hhalf : (upper.val - lower.val) / step.val < w.greatest + 1 := by
      refine Int.ediv_lt_of_lt_mul (by omega) ?_
      have hdouble : (w.greatest + 1) * 2 ≤ (w.greatest + 1) * step.val :=
        Int.mul_le_mul_of_nonneg_left (by omega) (by omega)
      omega
    omega

theorem count_eq_whole_steps (hle : lower ≤ upper) (hstep : 1 ≤ step.val) (hcut : ¬AllWords lower upper step) :
    (count lower upper step : Int) = (upper.val - lower.val) / step.val + 1 := by
  have hlt := whole_steps_lt hstep hcut
  have hpos : 0 ≤ (upper.val - lower.val) / step.val :=
    Int.ediv_nonneg (by have := Word.le_def.mp hle; omega) (by omega)
  rw [count_of_le hle, Nat.mod_eq_of_lt (by omega)]
  omega

theorem vals_ofBounds (hstep : 1 ≤ step.val) :
    (ofBounds lower upper step).toArray.toList.map Word.val =
      (List.range (count lower upper step)).map (item lower.val step.val) := by
  rw [(at_ofBounds lower upper step).toArray (spans_count hstep), Nat.sub_zero, List.range_eq_range']

theorem ofBounds_gives_nil (h : count lower upper step = 0) : (ofBounds lower upper step).Gives [] :=
  .ended (next_of_zero h)

theorem ofBounds_gives_first (hstep : 1 ≤ step.val) (h : 0 < count lower upper step) :
    ∃ xs, (ofBounds lower upper step).Gives (lower :: xs) := by
  have hgives := (at_ofBounds lower upper step).gives (spans_count hstep)
  obtain ⟨m, hm⟩ := Nat.exists_eq_add_one.mpr h
  have hfirst : Word.wrap w (item lower.val step.val 0) = lower := by simp [item, Word.wrap_val]
  rw [Nat.sub_zero, hm, items_succ, hfirst] at hgives
  exact ⟨_, hgives⟩

theorem count_of_allWords (h : AllWords lower upper step) :
    (upper.val - lower.val) / step.val + 1 = countLimit ∧ count lower upper step = 0 := by
  obtain ⟨rfl, hlower, hupper, hone⟩ := h
  have hsteps : (upper.val - lower.val) / step.val + 1 = countLimit := by
    rw [hlower, hupper, hone]
    decide
  have hle : lower ≤ upper := by
    rw [Word.le_def, hlower, hupper]
    decide
  refine ⟨hsteps, ?_⟩
  rw [count_of_le hle, hsteps]
  decide

/-- One number for every whole step, and one to start with, are the span divided by the step, rounded up. -/
theorem whole_steps_eq_ceil {d s : Int} (hs : 1 ≤ s) : d / s + 1 = ⌈((d + 1 : Int) : ℚ) / (s : ℚ)⌉ := by
  have hpos : (0 : ℚ) < s := by exact_mod_cast hs
  have hbelow : d / s * s < d + 1 := by
    have := Int.ediv_mul_le d (by omega : s ≠ 0)
    omega
  have habove : d + 1 ≤ (d / s + 1) * s := Int.lt_ediv_add_one_mul_self d (by omega)
  symm
  rw [Int.ceil_eq_iff]
  constructor
  · rw [lt_div_iff₀ hpos]
    push_cast
    rw [add_sub_cancel_right]
    exact_mod_cast hbelow
  · rw [div_le_iff₀ hpos]
    exact_mod_cast habove

end Counts

end Progression

/-! ### Intervals -/

namespace Interval

open Progression

variable {w : Width}

theorem stepped_one (a : Interval w) : a.stepped 1 = .ok a.words :=
  stepped_of_le (by rw [Word.val_one])

theorem stepped_error_iff (a : Interval w) (step : Word w) (cause : Fault) :
    a.stepped step = .error cause ↔ step.val < 1 ∧ cause = .invalidStep step.val := by
  by_cases h : step.val < 1
  · rw [stepped_of_lt h]
    constructor
    · intro heq
      cases heq
      exact ⟨h, rfl⟩
    · rintro ⟨-, rfl⟩
      rfl
  · rw [stepped_of_le (by omega)]
    constructor
    · intro heq
      cases heq
    · rintro ⟨hlt, -⟩
      exact absurd hlt h

/-- A step below one is refused with a fault that carries it, and no other is. The words of any other
    stepped interval are, in ascending order, its integers at whole steps from the lower bound, as many as
    its span divided by the step, rounded up. The one exception are all words of the widest width one by
    one, whose count is cut to zero. Going through an interval without a step is going in steps of one. -/
theorem stepped_contents (a : Interval w) (step : Word w) :
    (∀ cause, a.stepped step = .error cause ↔ step.val < 1 ∧ cause = .invalidStep step.val) ∧
    (1 ≤ step.val → ∃ p, a.stepped step = .ok p ∧
      (¬(w = .w64 ∧ a.lower.val = w.least ∧ a.upper.val = w.greatest ∧ step.val = 1) →
        (∃ xs, p.Gives xs ∧ xs.Pairwise (· < ·) ∧
          ∀ x, x ∈ xs.map Word.val ↔ a.lower.val ≤ x ∧ x ≤ a.upper.val ∧ step.val ∣ x - a.lower.val) ∧
        (p.remaining : Int) =
          if a.lower ≤ a.upper then ⌈((a.upper.val - a.lower.val + 1 : Int) : ℚ) / (step.val : ℚ)⌉ else 0) ∧
      (w = .w64 ∧ a.lower.val = w.least ∧ a.upper.val = w.greatest ∧ step.val = 1 →
        (a.upper.val - a.lower.val) / step.val + 1 = countLimit ∧ p.remaining = 0 ∧ p.Gives [])) ∧
    a.stepped 1 = .ok a.words := by
  refine ⟨stepped_error_iff a step, fun hstep => ⟨_, stepped_of_le hstep, fun hcut => ?_, ?_⟩, stepped_one a⟩
  · have hs : Spans w a.lower.val step.val (count a.lower a.upper step) := spans_count hstep
    have hgives := (at_ofBounds a.lower a.upper step).gives hs
    refine ⟨⟨_, hgives, items_ascending hs hstep, fun x => ?_⟩, ?_⟩
    · rw [Nat.sub_zero, mem_items_iff hs]
      by_cases hle : a.lower ≤ a.upper
      · exact item_iff_dvd hstep (count_eq_whole_steps hle hstep hcut)
      · -- An interval with its bounds in the wrong order holds nothing and counts nothing.
        rw [count_of_not_le hle]
        rw [Word.le_def] at hle
        constructor
        · rintro ⟨k, hk, -⟩
          omega
        · rintro ⟨hlower, hupper, -⟩
          omega
    · by_cases hle : a.lower ≤ a.upper
      · rw [if_pos hle, ← whole_steps_eq_ceil hstep]
        exact count_eq_whole_steps hle hstep hcut
      · rw [if_neg hle]
        exact congrArg Nat.cast (count_of_not_le hle)
  · intro hall
    obtain ⟨hsteps, hcount⟩ := count_of_allWords hall
    exact ⟨hsteps, hcount, .ended (next_of_zero hcount)⟩

/-- The widest interval in the widest step holds three words; one by one it holds none. -/
theorem stepped_contents_of_widest :
    let a : Interval .w64 := ⟨.wrap .w64 Width.w64.least, .wrap .w64 Width.w64.greatest⟩
    let step : Word .w64 := .wrap .w64 Width.w64.greatest
    1 ≤ step.val ∧
      (∃ p, a.stepped step = .ok p ∧ p.remaining = 3 ∧
        ∃ xs, p.Gives xs ∧ Width.w64.least ∈ xs.map Word.val ∧ -1 ∈ xs.map Word.val) ∧
      ∃ p, a.stepped 1 = .ok p ∧ p.remaining = 0 ∧ p.Gives [] := by
  intro a step
  have hstep : 1 ≤ step.val := by decide
  obtain ⟨p, hp, hcontents, -⟩ := (stepped_contents a step).2.1 hstep
  obtain ⟨⟨xs, hgives, -, hmem⟩, -⟩ := hcontents (by decide)
  obtain ⟨q, hq, -, hall⟩ := (stepped_contents a 1).2.1 (by decide)
  obtain ⟨-, hzero, hnone⟩ := hall (by decide)
  have hthree : p.remaining = 3 := by
    cases hp
    decide
  exact ⟨hstep, ⟨p, hp, hthree, xs, hgives, (hmem _).mpr (by decide), (hmem _).mpr (by decide)⟩, q, hq, hzero, hnone⟩

end Interval

end TypedArrays
