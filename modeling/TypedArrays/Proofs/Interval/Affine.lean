import TypedArrays.Proofs.Integers
import TypedArrays.Proofs.Interval.Hull
import TypedArrays.Proofs.Interval.Splitting

/-! Step ranges under translation and scaling.

If the bounds and the step of one interval are those of another under `x ↦ k * x + c`, both have equally many
words (`Affine.count_eq`), and the words of the one are the images of the words of the other. The interval
operators move the bounds so, and the elementwise operators move the words. Both ways lead to the vector of the same
exact integers, so that nothing has to be shown to fit but the new bounds and the new step. -/

namespace TypedArrays

namespace Progression
variable {w : Width}

theorem item_affine (first step k c : Int) (i : Nat) :
    item (k * first + c) (k * step) i = k * item first step i + c := by
  unfold item
  rw [Int.mul_add, Int.mul_left_comm, Int.add_right_comm]

theorem toArray_ofBounds {lower upper step : Word w} (hstep : 1 ≤ step.val) :
    (ofBounds lower upper step).toArray = Word.table w (count lower upper step) (item lower.val step.val) := by
  have hs : Spans w lower.val step.val (count lower upper step) := spans_count hstep
  apply eq_of_vals
  rw [vals_ofBounds hstep, Word.table, Array.toList_map, Array.toList_range, List.map_map]
  refine List.map_congr_left fun i hi => ?_
  exact (Word.val_wrap_of_fits (hs i (List.mem_range.mp hi))).symm

end Progression

namespace Interval

open Progression

/-! ### Images -/

/-- An interval and a step are the images of others under `x ↦ k * x + c`, the step without the shift. -/
structure Affine {w : Width} (k c : Int) (a : Interval w) (step : Word w) (b : Interval w) (step' : Word w) : Prop where
  positive : 1 ≤ k
  lower : b.lower.val = k * a.lower.val + c
  upper : b.upper.val = k * a.upper.val + c
  step : step'.val = k * step.val

theorem Affine.count_eq {w : Width} {k c : Int} {a b : Interval w} {step step' : Word w}
    (h : Affine k c a step b step') : count b.lower b.upper step' = count a.lower a.upper step := by
  have hpos : 0 < k := h.positive
  have hspan : b.upper.val - b.lower.val = k * (a.upper.val - a.lower.val) := by
    rw [h.upper, h.lower, Int.mul_sub]
    omega
  have horder : b.upper < b.lower ↔ a.upper < a.lower := by
    rw [Word.lt_def, Word.lt_def, h.upper, h.lower, Int.add_lt_add_iff_right, Int.mul_lt_mul_left hpos]
  simp only [count, horder, hspan, h.step, Int.mul_ediv_mul_of_pos _ _ hpos]

section Operators
variable {w : Width} {a : Interval w} {c k step : Word w}

theorem affine_add_point (hlower : w.Fits (a.lower.val + c.val)) (hupper : w.Fits (a.upper.val + c.val)) :
    Affine 1 c.val a step (a + ⟨c, c⟩) step where
  positive := Int.le_refl 1
  lower := by rw [lower_add hlower, Int.one_mul]
  upper := by rw [upper_add hupper, Int.one_mul]
  step := (Int.one_mul _).symm

/-- All corners of a product with a single integer are products of a bound with it. -/
theorem affine_mul_point (ha : a.lower ≤ a.upper) (hk : 1 ≤ k.val) (hlower : w.Fits (k.val * a.lower.val))
    (hupper : w.Fits (k.val * a.upper.val)) (hstep : w.Fits (k.val * step.val)) :
    Affine k.val 0 a step (a * ⟨k, k⟩) (k * step) := by
  have hword : ∀ {x : Word w}, w.Fits (k.val * x.val) → (x * k).val = k.val * x.val := fun {x} hx => by
    rw [Word.val_mul, Int.mul_comm, Width.bmod_of_fits hx]
  have hle : k.val * a.lower.val ≤ k.val * a.upper.val :=
    Int.mul_le_mul_of_nonneg_left (Word.le_def.mp ha) (by omega)
  refine ⟨hk, ?_, ?_, Width.bmod_of_fits hstep⟩
  · show (hull (a.lower * k) (a.lower * k) (a.upper * k) (a.upper * k)).lower.val = _
    rw [lower_hull, hword hlower, hword hupper]
    omega
  · show (hull (a.lower * k) (a.lower * k) (a.upper * k) (a.upper * k)).upper.val = _
    rw [upper_hull, hword hlower, hword hupper]
    omega

end Operators

/-! ### Vectors -/

section Constants
variable {n : Nat} {x z : Nat → Int} {out : Vector}

theorem ofArray_replicate (n : Nat) (c : Word .w32) :
    Vector.ofArray .integer (Array.replicate n c) = Form.vector.ofIntegers n fun _ => c.val := by
  have htable : Array.replicate n c = Word.table .w32 n fun _ => c.val := by
    refine Array.ext_getElem? fun i => ?_
    rw [Word.getElem?_table, Array.getElem?_replicate, Word.wrap_val]
  rw [htable]
  rfl

theorem size_ofIntegers (n : Nat) (x : Nat → Int) : Vector.size (Form.vector.ofIntegers n x) = n :=
  Form.shape_ofIntegers (f := .vector) n x

theorem arithmetic_constant (ho : Form.vector.IsInteger n out) (op : Arithmetic) (c : Word .w32)
    (h : ∀ i, op.onWords (.wrap .w32 (x i)) (.wrap .w32 c.val) = .ok (.wrap .w32 (z i))) :
    let v := Form.vector.ofIntegers n x
    Vector.arithmetic .integer op out v (.ofArray .integer (Array.replicate v.size c)) =
      ⟨Form.vector.ofIntegers n z, none⟩ := by
  intro v
  rw [size_ofIntegers, ofArray_replicate]
  exact Form.arithmetic_ofIntegers ho op fun i _ => h i

end Constants

section Vectors
variable {a b : Interval .w32} {step step' : Word .w32} {k c : Int}

theorem stepRange_eq_ofIntegers (hstep : 1 ≤ step.val) : a.stepRange step =
    .ok (Form.vector.ofIntegers (count a.lower a.upper step) (item a.lower.val step.val)) := by
  rw [a.stepRange_of_le hstep, toArray_ofBounds hstep]
  rfl

theorem Affine.stepRange (h : Affine k c a step b step') (hstep : 1 ≤ step.val) : b.stepRange step' =
    .ok (Form.vector.ofIntegers (count a.lower a.upper step) fun i => k * item a.lower.val step.val i + c) := by
  have hstep' : 1 ≤ step'.val := by
    rw [h.step]
    exact Int.mul_pos h.positive hstep
  rw [stepRange_eq_ofIntegers hstep', h.count_eq, h.lower, h.step]
  exact congrArg (fun x => Except.ok (Form.vector.ofIntegers _ x)) (funext (item_affine _ _ _ _))

end Vectors

/-- Take an interval in steps of at least one and an integer vector to write to, as long as the interval has words.
    Adding the constant vector of `c` to the words gives the words of the interval moved by `c`, if its bounds still
    fit. Multiplying the words by the constant vector of `k` gives the words of the interval multiplied by `k` in steps
    `k` times as wide, if the bounds are in order, `k` is at least one, and the new bounds and the new step fit. -/
theorem stepRange_commutes_with_affine (a : Interval .w32) (step : Word .w32) (hstep : 1 ≤ step.val) :
    ∃ v, a.stepRange step = .ok v ∧ ∀ out : Vector, out.kind = .integer → out.size = v.size →
      (∀ c : Word .w32, Width.w32.Fits (a.lower.val + c.val) → Width.w32.Fits (a.upper.val + c.val) →
        ∃ u, (a + ⟨c, c⟩).stepRange step = .ok u ∧
          Vector.arithmetic .integer .add out v (.ofArray .integer (Array.replicate v.size c)) = ⟨u, none⟩) ∧
      (∀ k : Word .w32, a.lower ≤ a.upper → 1 ≤ k.val → Width.w32.Fits (k.val * a.lower.val) →
        Width.w32.Fits (k.val * a.upper.val) → Width.w32.Fits (k.val * step.val) →
        ∃ u, (a * ⟨k, k⟩).stepRange (k * step) = .ok u ∧
          Vector.arithmetic .integer .multiply out v (.ofArray .integer (Array.replicate v.size k)) = ⟨u, none⟩) := by
  refine ⟨_, stepRange_eq_ofIntegers hstep, fun out hkind hsize => ?_⟩
  rw [size_ofIntegers] at hsize
  have ho : Form.vector.IsInteger (count a.lower a.upper step) out := ⟨trivial, hkind, hsize⟩
  refine ⟨fun c hlower hupper => ?_, fun k ha hk hlower hupper hwide => ?_⟩
  · refine ⟨_, (affine_add_point hlower hupper).stepRange hstep, arithmetic_constant ho .add c fun i => ?_⟩
    rw [Int.one_mul]
    exact congrArg Except.ok (Word.wrap_add _ _)
  · refine ⟨_, (affine_mul_point ha hk hlower hupper hwide).stepRange hstep,
      arithmetic_constant ho .multiply k fun i => ?_⟩
    rw [Int.add_zero, Int.mul_comm]
    exact congrArg Except.ok (Word.wrap_mul _ _)

/-- From -7 to 9 in steps of 4, moved up to the greatest word and scaled until the word after the last one would not
    fit, into a vector that held other words. -/
theorem stepRange_commutes_with_affine_up_to_greatest :
    let word := Word.wrap .w32
    let a : Interval .w32 := ⟨word (-7), word 9⟩
    let step := word 4
    let c := word (Width.w32.greatest - 9)
    let k := word 200000000
    let v : Vector := .ofArray .integer #[word (-7), word (-3), word 1, word 5, word 9]
    let out : Vector := .ofArray .integer (Array.replicate 5 (word 6))
    (1 ≤ step.val ∧ out.kind = .integer ∧ out.size = v.size ∧ a.lower ≤ a.upper ∧ 1 ≤ k.val) ∧
      a.stepRange step = .ok v ∧
      (∃ u, (a + ⟨c, c⟩).stepRange step = .ok u ∧
        Vector.arithmetic .integer .add out v (.ofArray .integer (Array.replicate 5 c)) = ⟨u, none⟩) ∧
      ∃ u, (a * ⟨k, k⟩).stepRange (k * step) = .ok u ∧
        Vector.arithmetic .integer .multiply out v (.ofArray .integer (Array.replicate 5 k)) = ⟨u, none⟩ := by
  intro word a step c k v out
  obtain ⟨v', hv', hall⟩ := stepRange_commutes_with_affine a step (by decide)
  obtain rfl : v' = v := by
    cases hv'
    rfl
  obtain ⟨hmoved, hscaled⟩ := hall out rfl rfl
  exact ⟨⟨by decide, rfl, rfl, by decide, by decide⟩, hv', hmoved c (by decide) (by decide),
    hscaled k (by decide) (by decide) (by decide) (by decide) (by decide)⟩

end Interval

end TypedArrays
