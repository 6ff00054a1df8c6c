import TypedArrays.Proofs.Interval.Stepping

/-! Stepped intervals cut in two.

A progression does not remember where it came from. What is left of it after some words is the progression
that starts at the next word (`At.shift`, `At.eq`), as long as there is a next word; and a progression that
ends at one of its own words stops there. So the words of an interval are those up to any of them followed by
those from the next one on. -/

namespace TypedArrays

namespace Progression

variable {w : Width} {first step : Int} {n j k : Nat} {p q : Progression w}

/-! ### Starting later -/

theorem item_item (first step : Int) (j k : Nat) : item (item first step j) step k = item first step (j + k) := by
  unfold item
  rw [Int.natCast_add, Int.add_mul, Int.add_assoc]

theorem map_item_range_add (first step : Int) (m k : Nat) : (List.range (m + k)).map (item first step) =
    (List.range m).map (item first step) ++ (List.range k).map (item (item first step m) step) := by
  have hlater : item first step ∘ (m + ·) = item (item first step m) step :=
    funext fun i => (item_item first step m i).symm
  rw [List.range_add, List.map_append, List.map_map, hlater]

/-- The list from an index on, with the cursor at its start, is the list with the cursor at the index. -/
theorem At.shift (h : At (item first step j) step (n - j) 0 p) (hj : j < n) : At first step n j p where
  le := Nat.le_of_lt hj
  step_eq := h.step_eq
  remaining_eq := h.remaining_eq
  current_eq := by
    have hmin : j + min 0 (n - j - 1) = min j (n - 1) := by omega
    rw [h.current_eq, item_item, hmin]

theorem At.eq (hp : At first step n j p) (hq : At first step n j q) : p = q := by
  obtain ⟨pcurrent, pstep, premaining⟩ := p
  obtain ⟨qcurrent, qstep, qremaining⟩ := q
  have hcurrent : pcurrent = qcurrent := Word.ext_val (hp.current_eq.trans hq.current_eq.symm)
  have hstep : pstep = qstep := Word.ext_val (hp.step_eq.trans hq.step_eq.symm)
  have hremaining : premaining = qremaining := hp.remaining_eq.trans hq.remaining_eq.symm
  rw [hcurrent, hstep, hremaining]

theorem position_next (h : k + j ≤ n) : position n k (List.replicate j .next) = k + j := by
  induction j generalizing k with
  | zero => rfl
  | succ j ih =>
    have hone : k + min 1 (n - k) = k + 1 := by omega
    have hrest := ih (k := k + 1) (by omega)
    rw [List.replicate_succ]
    show position n (k + min 1 (n - k)) (List.replicate j .next) = k + (j + 1)
    rw [hone, hrest]
    omega

/-! ### Counts between words -/

section Counts
variable {lower upper step x : Word w}

theorem le_of_lt_count (hj : j < count lower upper step) : lower ≤ upper := by
  by_contra h
  rw [count_of_not_le h] at hj
  exact Nat.not_lt_zero j hj

/-- A progression with words was not cut. -/
theorem not_allWords (hj : j < count lower upper step) : ¬AllWords lower upper step := by
  intro h
  rw [(count_of_allWords h).2] at hj
  exact Nat.not_lt_zero j hj

theorem le_item (hstep : 1 ≤ step.val) (hx : x.val = item lower.val step.val j) : lower ≤ x := by
  have hpos : 0 ≤ (j : Int) * step.val := Int.mul_nonneg (Int.natCast_nonneg j) (by omega)
  rw [Word.le_def, hx, item]
  omega

variable (hstep : 1 ≤ step.val) (hj : j < count lower upper step) (hx : x.val = item lower.val step.val j)
include hstep hj hx

theorem item_le : x ≤ upper := by
  rw [Word.le_def, hx]
  exact item_le_of_lt_count hstep hj

theorem count_from_item : count x upper step = count lower upper step - j := by
  have hlower := Word.le_def.mp (le_item hstep hx)
  -- Were these all words of the widest width, they would start at `lower` already.
  have hcut : ¬AllWords x upper step := by
    rintro ⟨hw, hleast, hgreatest, hone⟩
    have := lower.fits.1
    exact not_allWords hj ⟨hw, by omega, hgreatest, hone⟩
  have hsteps := count_eq_whole_steps (item_le hstep hj hx) hstep hcut
  have hcount := count_eq_whole_steps (le_of_lt_count hj) hstep (not_allWords hj)
  have hspan : upper.val - x.val = (upper.val - lower.val) - j * step.val := by
    rw [hx, item]
    omega
  rw [hspan, Int.sub_mul_ediv_right _ _ (by omega)] at hsteps
  omega

theorem count_to_item : count lower x step = j + 1 := by
  have hupper := Word.le_def.mp (item_le hstep hj hx)
  have hcut : ¬AllWords lower x step := by
    rintro ⟨hw, hleast, hgreatest, hone⟩
    have := upper.fits.2
    exact not_allWords hj ⟨hw, hleast, by omega, hone⟩
  have hsteps := count_eq_whole_steps (le_item hstep hx) hstep hcut
  have hspan : x.val - lower.val = j * step.val := by
    rw [hx, item]
    omega
  rw [hspan, Int.mul_ediv_cancel _ (by omega)] at hsteps
  omega

/-- What is left after some calls of `next` is the progression from the next word on. -/
theorem after_next_eq_ofBounds :
    (ofBounds lower upper step).after (List.replicate j .next) = ofBounds x upper step := by
  have hafter := (at_ofBounds lower upper step).after (spans_count hstep) (List.replicate j .next)
  rw [position_next (by omega), Nat.zero_add] at hafter
  have hfresh := at_ofBounds x upper step
  rw [hx, count_from_item hstep hj hx] at hfresh
  exact hafter.eq (hfresh.shift hj)

end Counts

/-! ### Collected words -/

theorem eq_of_vals {xs ys : Array (Word w)} (h : xs.toList.map Word.val = ys.toList.map Word.val) : xs = ys :=
  Array.toList_inj.mp (List.map_injective_iff.mpr (fun _ _ => Word.ext_val) h)

/-- Collecting a progression lists what a reader gets who asks for the next word until there is none. -/
theorem At.gives_toArray (h : At first step n j p) (hs : Spans w first step n) : p.Gives p.toArray.toList := by
  have hle := h.le
  have hitems : p.toArray = (items w first step j (n - j)).toArray :=
    eq_of_vals ((h.toArray hs).trans (vals_items hs (by omega)).symm)
  rw [hitems]
  exact h.gives hs

/-! ### Words in two parts -/

section Parts
variable {lower upper step x y : Word w} (hstep : 1 ≤ step.val) (hk : k < count lower upper step)
  (hx : x.val = item lower.val step.val k)
include hstep hk hx

theorem ofBounds_to_last (hlast : k + 1 = count lower upper step) :
    ofBounds lower x step = ofBounds lower upper step := by
  rw [ofBounds, ofBounds, count_to_item hstep hk hx, hlast]

theorem toArray_append (hlt : k + 1 < count lower upper step) (hy : y.val = item lower.val step.val (k + 1)) :
    (ofBounds lower x step).toArray ++ (ofBounds y upper step).toArray = (ofBounds lower upper step).toArray := by
  have hsplit : count lower upper step = (k + 1) + (count lower upper step - (k + 1)) := by omega
  apply eq_of_vals
  rw [Array.toList_append, List.map_append, vals_ofBounds hstep, vals_ofBounds hstep, vals_ofBounds hstep,
    count_to_item hstep hk hx, count_from_item hstep hlt hy, hy, ← map_item_range_add, ← hsplit]

end Parts

end Progression

/-! ### Intervals -/

namespace Interval

open Progression

variable {w : Width}

theorem exists_item {a : Interval w} {step : Word w} (hstep : 1 ≤ step.val) {j : Nat}
    (hj : j < count a.lower a.upper step) : ∃ x : Word w, x.val = item a.lower.val step.val j :=
  ⟨_, Word.val_wrap_of_fits (spans_count hstep j hj)⟩

/-- Of an interval in steps of at least one, what is left after any number of calls of `next`, with a word still
    to come, is the same in all its parts as the progression made from that word on. Hence the words of an
    interval, which are what a reader gets by asking for the next one, are those up to any one of them, followed
    by those from the next one on if there is one. -/
theorem stepped_splits_anywhere (a : Interval w) (step : Word w) (hstep : 1 ≤ step.val) :
    ∃ p, a.stepped step = .ok p ∧ p.Gives p.toArray.toList ∧
      (∀ j < p.remaining, ∃ x : Word w, x.val = a.lower.val + j * step.val ∧
        stepped ⟨x, a.upper⟩ step = .ok (p.after (List.replicate j .next))) ∧
      ∀ k < p.remaining, ∃ (x : Word w) (q : Progression w), x.val = a.lower.val + k * step.val ∧
        stepped ⟨a.lower, x⟩ step = .ok q ∧
        (k + 1 = p.remaining → p.toArray = q.toArray) ∧
        (k + 1 < p.remaining → ∃ (y : Word w) (r : Progression w), y.val = a.lower.val + (k + 1 : Nat) * step.val ∧
          stepped ⟨y, a.upper⟩ step = .ok r ∧ p.toArray = q.toArray ++ r.toArray) := by
  refine ⟨_, stepped_of_le hstep, ?_, fun j hj => ?_, fun k hk => ?_⟩
  · exact (at_ofBounds a.lower a.upper step).gives_toArray (spans_count hstep)
  · obtain ⟨x, hx⟩ := exists_item hstep hj
    exact ⟨x, hx, by rw [after_next_eq_ofBounds hstep hj hx, stepped_of_le hstep]⟩
  · obtain ⟨x, hx⟩ := exists_item hstep hk
    refine ⟨x, _, hx, stepped_of_le hstep, fun hlast => ?_, fun hlt => ?_⟩
    · rw [ofBounds_to_last hstep hk hx hlast]
    · obtain ⟨y, hy⟩ := exists_item hstep hlt
      exact ⟨y, _, hy, stepped_of_le hstep, (toArray_append hstep hk hx hlt hy).symm⟩

/-- From the least word of the widest width almost to the greatest, in the widest step: three words, the last
    one of which stands alone. -/
theorem stepped_splits_anywhere_of_widest :
    let word := Word.wrap .w64
    let a : Interval .w64 := ⟨word Width.w64.least, word Width.w64.greatest⟩
    let step := word Width.w64.greatest
    1 ≤ step.val ∧ ∃ p, a.stepped step = .ok p ∧ p.remaining = 3 ∧ p.Gives p.toArray.toList ∧
      stepped ⟨word (Width.w64.greatest - 1), a.upper⟩ step = .ok (p.after [.next, .next]) ∧
      ∃ q r, stepped ⟨a.lower, word (-1)⟩ step = .ok q ∧
        stepped ⟨word (Width.w64.greatest - 1), a.upper⟩ step = .ok r ∧ p.toArray = q.toArray ++ r.toArray := by
  intro word a step
  have hstep : 1 ≤ step.val := by decide
  obtain ⟨p, hp, hgives, hfresh, hparts⟩ := stepped_splits_anywhere a step hstep
  have hthree : p.remaining = 3 := by
    cases hp
    decide
  obtain ⟨x, hx, hafter⟩ := hfresh 2 (by omega)
  obtain ⟨y, q, hy, hq, -, happend⟩ := hparts 1 (by omega)
  obtain ⟨z, r, hz, hr, hwords⟩ := happend (by omega)
  obtain rfl : x = word (Width.w64.greatest - 1) := Word.ext_val (hx.trans (by decide))
  obtain rfl : y = word (-1) := Word.ext_val (hy.trans (by decide))
  obtain rfl : z = word (Width.w64.greatest - 1) := Word.ext_val (hz.trans (by decide))
  exact ⟨hstep, p, hp, hthree, hgives, hafter, q, r, hq, hr, hwords⟩

end Interval

end TypedArrays
