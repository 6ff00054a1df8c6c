import TypedArrays.Proofs.Interval.Enclosure

/-! Expressions over intervals.

An expression is evaluated twice: on intervals, with the operators as they are, and at a point, in exact
integers. Where every operator of the expression is safe on the intervals it gets, both evaluations are
defined at every subexpression and the interval encloses the value at the point. -/

namespace TypedArrays.Interval

/-- Operators applied to variables and to each other. -/
inductive Expr (ι : Type) where
  | var (i : ι)
  | node (op : Operator) (left right : Expr ι)

namespace Expr

variable {ι : Type} {w : Width}

/-- The interval of an expression over intervals for its variables. -/
def eval (box : ι → Interval w) : Expr ι → Except Trap (Interval w)
  | var i => .ok (box i)
  | node op left right => do
    let a ← left.eval box
    let b ← right.eval box
    op.apply a b

/-- The exact integer of an expression at a point, if it is defined there. -/
def value (point : ι → Int) : Expr ι → Option Int
  | var i => some (point i)
  | node op left right => do
    let x ← left.value point
    let y ← right.value point
    op.exact x y

/-- Every operator is safe on the intervals that its operands evaluate to. -/
def Safe (box : ι → Interval w) : Expr ι → Prop
  | var _ => True
  | node op left right =>
    left.Safe box ∧ right.Safe box ∧ ∀ a b, left.eval box = .ok a → right.eval box = .ok b → op.Safe a b

/-- An expression and all expressions inside it. -/
def subterms : Expr ι → List (Expr ι)
  | var i => [var i]
  | node op left right => node op left right :: (left.subterms ++ right.subterms)

theorem self_mem_subterms (e : Expr ι) : e ∈ e.subterms := by
  cases e with
  | var i => exact List.mem_singleton_self _
  | node op left right => exact List.mem_cons_self

variable {box : ι → Interval w} {point : ι → Int} {e t left right : Expr ι} {op : Operator}

theorem Safe.subterm (h : e.Safe box) (ht : t ∈ e.subterms) : t.Safe box := by
  induction e with
  | var i =>
    rw [List.mem_singleton.mp ht]
    exact h
  | node op left right ihl ihr =>
    rcases List.mem_cons.mp ht with rfl | ht
    · exact h
    · rcases List.mem_append.mp ht with ht | ht
      · exact ihl h.1 ht
      · exact ihr h.2.1 ht

/-- Both evaluations are defined, and the interval holds the integer. -/
def Enclosed (box : ι → Interval w) (point : ι → Int) (e : Expr ι) : Prop :=
  ∃ a x, e.eval box = .ok a ∧ e.value point = some x ∧ a.Holds x

theorem Enclosed.node (hl : left.Enclosed box point) (hr : right.Enclosed box point)
    (hop : ∀ a b, left.eval box = .ok a → right.eval box = .ok b → op.Safe a b) :
    (node op left right).Enclosed box point := by
  obtain ⟨a, x, ha, hx, hax⟩ := hl
  obtain ⟨b, y, hb, hy, hby⟩ := hr
  obtain ⟨c, z, hc, hz, hcz⟩ := (hop a b ha hb).encloses hax hby
  refine ⟨c, z, ?_, ?_, hcz⟩
  · rw [eval, ha, hb]
    exact hc
  · rw [value, hx, hy]
    exact hz

theorem Safe.enclosed (hpoint : ∀ i, (box i).Holds (point i)) (h : e.Safe box) : e.Enclosed box point := by
  induction e with
  | var i => exact ⟨box i, point i, rfl, rfl, hpoint i⟩
  | node op left right ihl ihr =>
    obtain ⟨hl, hr, hop⟩ := h
    exact (ihl hl).node (ihr hr) hop

/-- The fundamental theorem of interval arithmetic: every subexpression, and so the expression itself,
    evaluates to a proper interval around its value at the point, which is an integer of the width. That the
    intervals of the variables are proper is part of their holding the point. -/
theorem eval_encloses_value (box : ι → Interval w) (point : ι → Int) (e : Expr ι)
    (hpoint : ∀ i, (box i).lower.val ≤ point i ∧ point i ≤ (box i).upper.val)
    (hsafe : e.Safe box) :
    e ∈ e.subterms ∧ ∀ t ∈ e.subterms, ∃ a x, t.eval box = .ok a ∧ a.isProper = true ∧
      t.value point = some x ∧ w.Fits x ∧ a.lower.val ≤ x ∧ x ≤ a.upper.val := by
  refine ⟨self_mem_subterms e, fun t ht => ?_⟩
  obtain ⟨a, x, ha, hx, hax⟩ := (hsafe.subterm ht).enclosed hpoint
  exact ⟨a, x, ha, hax.isProper, hx, hax.fits, hax.1, hax.2⟩

/-- A square over a negative divisor: the bounds `[-11, 11]` and `[-3, -2]` around -7 and -2. -/
theorem eval_encloses_value_of_square_over_negative :
    let box : Bool → Interval .w8 := fun i =>
      if i then ⟨.wrap .w8 (-11), .wrap .w8 11⟩ else ⟨.wrap .w8 (-3), .wrap .w8 (-2)⟩
    let point : Bool → Int := fun i => if i then -7 else -2
    let e : Expr Bool := .node .divide (.node .multiply (.var true) (.var true)) (.var false)
    (∀ i, (box i).lower.val ≤ point i ∧ point i ≤ (box i).upper.val) ∧ e.Safe box ∧ e.value point = some (-24) ∧
      ∃ a x, e.eval box = .ok a ∧ a.isProper = true ∧ e.value point = some x ∧ Width.w8.Fits x ∧
        a.lower.val ≤ x ∧ x ≤ a.upper.val := by
  intro box point e
  have hpoint : ∀ i, (box i).lower.val ≤ point i ∧ point i ≤ (box i).upper.val := by decide
  have hsafe : e.Safe box := by
    refine ⟨⟨trivial, trivial, ?_⟩, trivial, ?_⟩
    · rintro a b ⟨⟩ ⟨⟩
      decide
    · rintro a b ⟨⟩ ⟨⟩
      decide
  obtain ⟨hself, hsubterms⟩ := eval_encloses_value box point e hpoint hsafe
  exact ⟨hpoint, hsafe, by decide, hsubterms e hself⟩

end Expr

end TypedArrays.Interval
