import TypedArrays.Proofs.Integers

/-! Integer containers as a commutative ring.

A polynomial over integer containers of one shape is computed by one call for every node, each into a
container of its own. No such call fails, and the integers of the result are the polynomial's values on the
integers of the operands, place by place, up to wrapping (`eval_eq_ofIntegers`). Polynomials that agree on
all exact integers therefore give the same container, whatever wraps on the way and whatever the containers
that are written held before. -/

namespace TypedArrays

/-- The output of an operation that completed, or else the reason why it did not. -/
def Written.toExcept {α : Type} (w : Written α) : Except Halt α :=
  match w.halt with
  | none => .ok w.out
  | some halt => .error halt

/-! ### Operators of a ring -/

/-- The operators that have a result on all integers and respect wrapping. -/
inductive RingOperator where
  | add
  | subtract
  | multiply

namespace RingOperator

def arithmetic : RingOperator → Arithmetic
  | add => .add
  | subtract => .subtract
  | multiply => .multiply

/-- The operator on exact integers. -/
def exact (x y : Int) : RingOperator → Int
  | add => x + y
  | subtract => x - y
  | multiply => x * y

theorem onWords_wrap {w : Width} (op : RingOperator) (x y : Int) :
    op.arithmetic.onWords (Word.wrap w x) (Word.wrap w y) = .ok (Word.wrap w (op.exact x y)) := by
  cases op with
  | add => exact congrArg Except.ok (Word.wrap_add x y)
  | subtract => exact congrArg Except.ok (Word.wrap_sub x y)
  | multiply => exact congrArg Except.ok (Word.wrap_mul x y)

end RingOperator

/-! ### Polynomials -/

/-- A polynomial over containers. Every node has the container that its call writes. -/
inductive Polynomial (f : Form) where
  | leaf (c : f.Carrier)
  | combine (op : RingOperator) (out : f.Carrier) (lhs rhs : Polynomial f)
  | negate (out : f.Carrier) (operand : Polynomial f)

namespace Polynomial
variable {f : Form} {shape : f.Shape}

/-- Computes a polynomial, one call for every node. -/
def eval : Polynomial f → Except Halt f.Carrier
  | leaf c => .ok c
  | combine op out lhs rhs => do
    let l ← eval lhs
    let r ← eval rhs
    (f.arithmetic (some .integer) op.arithmetic out l r).toExcept
  | negate out operand => do
    let c ← eval operand
    (f.negate (some .integer) out c).toExcept

/-- The value of a polynomial on the integers at a place. -/
def value (i : Nat) : Polynomial f → Int
  | leaf c => f.integerAt c i
  | combine op _ lhs rhs => op.exact (lhs.value i) (rhs.value i)
  | negate _ operand => -operand.value i

/-- All containers of a polynomial, those it writes included, are integer containers of a shape. -/
def Over (shape : f.Shape) : Polynomial f → Prop
  | leaf c => f.IsInteger shape c
  | combine _ out lhs rhs => f.IsInteger shape out ∧ lhs.Over shape ∧ rhs.Over shape
  | negate out operand => f.IsInteger shape out ∧ operand.Over shape

/-- Two polynomials are computed without fail and come to the same container. -/
def Agree (t u : Polynomial f) : Prop := ∃ c, t.eval = .ok c ∧ u.eval = .ok c

theorem eval_eq_ofIntegers {t : Polynomial f} (h : t.Over shape) :
    t.eval = .ok (f.ofIntegers shape fun i => t.value i) := by
  -- An intermediate container holds wrapped integers, but `ofIntegers` of the exact ones is the same container:
  -- so the values grow past the width without any case for it.
  induction t with
  | leaf c => exact congrArg Except.ok (Form.IsInteger.eq_ofIntegers h)
  | combine op out lhs rhs ihl ihr =>
    obtain ⟨ho, hl, hr⟩ := h
    have hcall := Form.arithmetic_ofIntegers ho op.arithmetic
      fun i _ => op.onWords_wrap (lhs.value i) (rhs.value i)
    simp only [eval, ihl hl, ihr hr, bind, Except.bind, hcall, Written.toExcept, value]
  | negate out operand ih =>
    obtain ⟨ho, ht⟩ := h
    have hcall := Form.negate_ofIntegers ho fun i => operand.value i
    simp only [eval, ih ht, bind, Except.bind, hcall, Written.toExcept, value]

theorem agree_of_value_eq {t u : Polynomial f} (ht : t.Over shape) (hu : u.Over shape)
    (h : ∀ i < f.lanes shape, t.value i = u.value i) : Agree t u := by
  refine ⟨_, eval_eq_ofIntegers ht, ?_⟩
  rw [eval_eq_ofIntegers hu]
  exact congrArg Except.ok (Form.ofIntegers_congr h).symm

/-! ### Laws -/

/-- The polynomial of one integer at all places. -/
def constant (shape : f.Shape) (n : Int) : Polynomial f := leaf (f.ofIntegers shape fun _ => n)

theorem over_constant {c : f.Carrier} (hc : f.IsInteger shape c) (n : Int) : (constant shape n).Over shape :=
  Form.isInteger_ofIntegers hc _

theorem value_constant {n : Int} (hn : Width.w32.Fits n) {i : Nat} (hi : i < f.lanes shape) :
    (constant shape n).value i = n :=
  (Form.integerAt_ofIntegers _ hi).trans (Word.val_wrap_of_fits hn)

section Units
variable {x : Polynomial f} {o p : f.Carrier} (hx : x.Over shape) (ho : f.IsInteger shape o)
include hx ho

theorem agree_add_zero : Agree (combine .add o x (constant shape 0)) x := by
  refine agree_of_value_eq ⟨ho, hx, over_constant ho 0⟩ hx fun i hi => ?_
  rw [value, value_constant Width.w32.fits_zero hi]
  exact Int.add_zero _

theorem agree_mul_one : Agree (combine .multiply o x (constant shape 1)) x := by
  refine agree_of_value_eq ⟨ho, hx, over_constant ho 1⟩ hx fun i hi => ?_
  rw [value, value_constant (by decide) hi]
  exact Int.mul_one _

theorem agree_add_negate (hp : f.IsInteger shape p) : Agree (combine .add p x (negate o x)) (constant shape 0) := by
  refine agree_of_value_eq ⟨hp, hx, ho, hx⟩ (over_constant ho 0) fun i hi => ?_
  rw [value_constant Width.w32.fits_zero hi]
  exact Int.add_right_neg _

end Units

/-- Integer containers of one shape obey the laws of a commutative ring, through calls that all complete and
    write to any containers of that kind and shape. The zero and the one of the ring hold nothing but zeros
    and ones. -/
theorem integers_obey_ring_laws {a b c o p q r s : f.Carrier}
    (h : ∀ d ∈ [a, b, c, o, p, q, r, s], f.IsInteger shape d) :
    let x := leaf a
    let y := leaf b
    let z := leaf c
    Agree (combine .add o x y) (combine .add p y x) ∧
    Agree (combine .multiply o x y) (combine .multiply p y x) ∧
    Agree (combine .add p (combine .add o x y) z) (combine .add r x (combine .add q y z)) ∧
    Agree (combine .multiply p (combine .multiply o x y) z) (combine .multiply r x (combine .multiply q y z)) ∧
    Agree (combine .multiply p x (combine .add o y z))
      (combine .add s (combine .multiply q x y) (combine .multiply r x z)) ∧
    Agree (combine .add o x y) (combine .subtract q x (negate p y)) ∧
    Agree (negate p (negate o x)) x ∧
    Agree (combine .subtract o x y) (negate q (combine .subtract p y x)) ∧
    Agree (combine .multiply p (negate o x) y) (negate r (combine .multiply q x y)) ∧
    Agree (combine .add o x (constant shape 0)) x ∧
    Agree (combine .multiply o x (constant shape 1)) x ∧
    Agree (combine .add p x (negate o x)) (constant shape 0) := by
  intro x y z
  simp only [List.forall_mem_cons] at h
  obtain ⟨ha, hb, hc, ho, hp, hq, hr, hs, -⟩ := h
  have hx : x.Over shape := ha
  have hy : y.Over shape := hb
  have hz : z.Over shape := hc
  exact ⟨agree_of_value_eq ⟨ho, hx, hy⟩ ⟨hp, hy, hx⟩ fun i _ => Int.add_comm _ _,
    agree_of_value_eq ⟨ho, hx, hy⟩ ⟨hp, hy, hx⟩ fun i _ => Int.mul_comm _ _,
    agree_of_value_eq ⟨hp, ⟨ho, hx, hy⟩, hz⟩ ⟨hr, hx, hq, hy, hz⟩ fun i _ => Int.add_assoc _ _ _,
    agree_of_value_eq ⟨hp, ⟨ho, hx, hy⟩, hz⟩ ⟨hr, hx, hq, hy, hz⟩ fun i _ => Int.mul_assoc _ _ _,
    agree_of_value_eq ⟨hp, hx, ho, hy, hz⟩ ⟨hs, ⟨hq, hx, hy⟩, hr, hx, hz⟩ fun i _ => Int.mul_add _ _ _,
    agree_of_value_eq ⟨ho, hx, hy⟩ ⟨hq, hx, hp, hy⟩ fun i _ => (Int.sub_neg _ _).symm,
    agree_of_value_eq ⟨hp, ho, hx⟩ hx fun i _ => Int.neg_neg _,
    agree_of_value_eq ⟨ho, hx, hy⟩ ⟨hq, hp, hy, hx⟩ fun i _ => (Int.neg_sub _ _).symm,
    agree_of_value_eq ⟨hp, ⟨ho, hx⟩, hy⟩ ⟨hr, hq, hx, hy⟩ fun i _ => Int.neg_mul _ _,
    agree_add_zero hx ho, agree_mul_one hx ho, agree_add_negate hx ho hp⟩

/-- Sums of the greatest word and products of the least one wrap, into outputs that held other words. -/
theorem integers_obey_ring_laws_past_greatest :
    let m := fun x y : Int => (⟨1, 2, ⟨.integer, #[Word.wrap .w32 x, Word.wrap .w32 y]⟩⟩ : Matrix)
    let a := m 2147483647 (-2147483648)
    let b := m 3 (-1)
    let c := m 2147483647 5
    let o := m 7 7
    (∀ d ∈ [a, b, c, o, o, o, o, o], Form.matrix.IsInteger (1, 2) d) ∧
      Agree (f := .matrix) (combine .multiply o (leaf a) (combine .add o (leaf b) (leaf c)))
        (combine .add o (combine .multiply o (leaf a) (leaf b)) (combine .multiply o (leaf a) (leaf c))) ∧
      eval (f := .matrix) (combine .multiply o (leaf a) (combine .add o (leaf b) (leaf c))) =
        .ok (m 2147483646 0) := by
  intro m a b c o
  have hm : ∀ x y, Form.matrix.IsInteger (1, 2) (m x y) := fun x y =>
    ⟨⟨rfl, (by decide : 1 * 2 < sizeLimit)⟩, rfl, rfl⟩
  have hall : ∀ d ∈ [a, b, c, o, o, o, o, o], Form.matrix.IsInteger (1, 2) d := by
    simp only [List.forall_mem_cons]
    exact ⟨hm _ _, hm _ _, hm _ _, hm _ _, hm _ _, hm _ _, hm _ _, hm _ _, by simp⟩
  obtain ⟨-, -, -, -, hdistributes, -⟩ := integers_obey_ring_laws (f := .matrix) hall
  exact ⟨hall, hdistributes, rfl⟩

end Polynomial

end TypedArrays
