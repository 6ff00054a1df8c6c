import TypedArrays.Proofs.Boundary.Heap
import TypedArrays.Proofs.Interval.Stepping

/-! Filling a cell with the words of a stepped interval.

The call either changes nothing, or it puts one new vector behind a fresh handle and that handle into the
cell. The vector has one element for each whole step from the lower bound to the upper, and no interval of
this width has more of them than a buffer can take. -/

namespace TypedArrays

/-- The numbers from the lower bound to the upper in whole steps, in ascending order. -/
def Interval.numbers (range : Interval .w32) (step : Word .w32) : List Int :=
  if range.lower ≤ range.upper then
    (List.range (((range.upper.val - range.lower.val) / step.val).toNat + 1)).map fun (k : Nat) =>
      range.lower.val + k * step.val
  else []

theorem Interval.vals_stepped {range : Interval .w32} {step : Word .w32} (h : 1 ≤ step.val) :
    (Progression.ofBounds range.lower range.upper step).toArray.toList.map Word.val = range.numbers step := by
  rw [Progression.vals_ofBounds h, numbers]
  by_cases hle : range.lower ≤ range.upper
  · -- Only words of the widest width are ever too many to be counted.
    have hwidth : ¬Progression.AllWords range.lower range.upper step := by
      rintro ⟨⟨⟩, -⟩
    have hcount := Progression.count_eq_whole_steps hle h hwidth
    have hpos : 0 ≤ (range.upper.val - range.lower.val) / step.val :=
      Int.ediv_nonneg (by have := Word.le_def.mp hle; omega) (by omega)
    have hlength : Progression.count range.lower range.upper step =
        ((range.upper.val - range.lower.val) / step.val).toNat + 1 := by omega
    rw [if_pos hle, hlength]
    rfl
  · rw [if_neg hle, Progression.count_of_not_le hle]
    rfl

namespace Boundary.Heap
variable {heap : Heap}

theorem get?_insert_of_live {f : Form} {q : Handle f} {old : f.Carrier} (h : heap.get? q = some old)
    (value : f.Carrier) : q ≠ heap.fresh f ∧ (heap.insert value).get? q = some old := by
  have hne : q ≠ heap.fresh f := by
    rintro rfl
    rw [get?_fresh] at h
    cases h
  rw [get?_insert, if_neg hne]
  exact ⟨hne, h⟩

/-- Take any heap and any cell, whether it holds null or a handle. A step below one is answered with status
    1 and changes neither the cell nor the heap. Any other is answered with 0: the cell then holds a handle
    that no live vector had, behind it are the integers from the lower bound to the upper in whole steps, and
    all that was live is as it was. The buffer asked for never exceeds the limit, so there is no trap. -/
theorem intervalBy_fills_cell (heap : Heap) (content : Pointer .vector) (range : Interval .w32) (step : Word .w32) :
    let c : HandleCall := .intervalBy (some content) range step
    (step.val < 1 → ∃ status : Status, status.code = 1 ∧ (heap.call c).result = .ok (.cell status content, heap)) ∧
    (1 ≤ step.val → ∃ (status : Status) (p : Handle .vector) (data : Array (Word .w32)) (after : Heap),
      status.code = 0 ∧ (heap.call c).result = .ok (.cell status (some p), after) ∧
      after.get? p = some (Vector.ofArray .integer data) ∧ data.toList.map Word.val = range.numbers step ∧
      (∀ (q : Handle .vector) (v : Vector), heap.get? q = some v → q ≠ p ∧ after.get? q = some v) ∧
      ∀ q : Handle .matrix, after.get? q = heap.get? q) ∧
    (Progression.ofBounds range.lower range.upper step).remaining * Kind.integer.bytes ≤ 2 ^ 63 - 1 ∧
    ∀ trap, (heap.call c).result ≠ .error (.trap trap) := by
  intro c
  let vector : Vector := .ofArray .integer (Progression.ofBounds range.lower range.upper step).toArray
  have hrefused : step.val < 1 → (heap.call c).result = .ok (.cell .invalidStep content, heap) := fun h =>
    congrArg Reaction.result (fillCell_of_lt h)
  have hfilled : 1 ≤ step.val → (heap.call c).result =
      .ok (.cell .ok (some (heap.fresh .vector)), heap.insert (f := .vector) vector) := fun h =>
    congrArg Reaction.result (fillCell_of_le h)
  refine ⟨fun h => ⟨.invalidStep, rfl, hrefused h⟩, fun h => ?_, range.stepped_bytes_le step, fun trap => ?_⟩
  · refine ⟨.ok, heap.fresh .vector, _, _, rfl, hfilled h, ?_, Interval.vals_stepped h,
      fun q v hq => get?_insert_of_live (f := .vector) hq vector,
      fun q => get?_insert_form (f := .vector) (g := .matrix) (by simp) vector⟩
    rw [get?_insert, if_pos rfl]
  · rcases Int.lt_or_le step.val 1 with h | h
    · simp [hrefused h]
    · simp [hfilled h]

/-- From 1 to 10 in steps of 3, into a cell that holds the one live vector; then in steps of 0. -/
theorem intervalBy_fills_cell_next_to_live :
    let old : Vector := .ofArray .boolean #[7]
    let heap : Heap := ⟨⟨#[some old]⟩, .empty⟩
    let held : Handle .vector := ⟨0⟩
    let range : Interval .w32 := ⟨.wrap .w32 1, .wrap .w32 10⟩
    let step : Word .w32 := .wrap .w32 3
    (1 ≤ step.val ∧ heap.get? held = some old) ∧
      (∃ status p data after, (heap.call (.intervalBy (some (some held)) range step)).result =
          .ok (.cell status (some p), after) ∧ p ≠ held ∧ after.get? held = some old ∧
        after.get? p = some (Vector.ofArray .integer data) ∧ data.toList.map Word.val = [1, 4, 7, 10]) ∧
      ∃ status : Status, status.code = 1 ∧
        (heap.call (.intervalBy (some (some held)) range (.wrap .w32 0))).result = .ok (.cell status (some held), heap) := by
  intro old heap held range step
  obtain ⟨-, hfills, -⟩ := intervalBy_fills_cell heap (some held) range step
  obtain ⟨status, p, data, after, -, hcall, hvector, hnumbers, hlive, -⟩ := hfills (by decide)
  obtain ⟨hne, hold⟩ := hlive held old rfl
  obtain ⟨hrefuses, -⟩ := intervalBy_fills_cell heap (some held) range (.wrap .w32 0)
  refine ⟨⟨by decide, rfl⟩, ⟨status, p, data, after, hcall, hne.symm, hold, hvector, ?_⟩, hrefuses (by decide)⟩
  exact hnumbers.trans (by decide)

end Boundary.Heap

end TypedArrays
