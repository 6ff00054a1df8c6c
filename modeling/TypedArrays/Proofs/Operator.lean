import TypedArrays.Operator

/-! Operators without a result.

Arithmetic on integers is total but for three operators, and these trap exactly where exact arithmetic
has no result to round: a zero divisor, and zero to a negative power. -/

namespace TypedArrays

/-- The operator has no result on two exact integers. -/
def Arithmetic.Undefined (a b : Int) : Arithmetic → Prop
  | add => False
  | subtract => False
  | multiply => False
  | divide => b = 0
  | modulus => b = 0
  | power => a = 0 ∧ b < 0

/-- The trap of an operator where it has no result. -/
def Arithmetic.trap? : Arithmetic → Option Trap
  | add => none
  | subtract => none
  | multiply => none
  | divide => some .divideByZero
  | modulus => some .remainderByZero
  | power => some .divideByZero

/-- A trap of an operator on integers. -/
def Trap.IsUndefined (trap : Trap) : Prop := trap = divideByZero ∨ trap = remainderByZero

namespace Word
variable {w : Width} {a b : Word w}

theorem quotient?_eq_none_iff : a.quotient? b = none ↔ b.val = 0 := by
  unfold quotient?
  split <;> simp_all

theorem remainder?_eq_none_iff : a.remainder? b = none ↔ b.val = 0 := by
  unfold remainder?
  split <;> simp_all

theorem power?_eq_none_iff : a.power? b = none ↔ a.val = 0 ∧ b.val < 0 := by
  unfold power?
  by_cases hb : 0 ≤ b.val
  · rw [if_pos hb]
    constructor
    · intro h
      cases h
    · rintro ⟨-, hneg⟩
      omega
  · rw [if_neg hb]
    by_cases ha : a.val = 0
    · rw [if_pos ha]
      exact ⟨fun _ => ⟨ha, by omega⟩, fun _ => rfl⟩
    · rw [if_neg ha]
      refine ⟨fun h => ?_, fun h => absurd h.1 ha⟩
      split at h
      · cases h
      · split at h <;> cases h

end Word

theorem elim_eq_error_iff {α : Type} {x : Option α} {t trap : Trap} :
    x.elim (.error t) Except.ok = .error trap ↔ x = none ∧ t = trap := by
  cases x <;> simp

namespace Arithmetic
variable {w : Width} {op : Arithmetic} {a b : Word w} {trap : Trap}

theorem trap?_isUndefined (h : op.trap? = some trap) : trap.IsUndefined := by
  cases op <;> cases h <;> simp [Trap.IsUndefined]

theorem onWords_eq_error_iff : op.onWords a b = .error trap ↔ op.Undefined a.val b.val ∧ op.trap? = some trap := by
  cases op with
  | add => simp [onWords, apply, Word.scalar, Undefined]
  | subtract => simp [onWords, apply, Word.scalar, Undefined]
  | multiply => simp [onWords, apply, Word.scalar, Undefined]
  | divide => simp [onWords, apply, Word.scalar, Undefined, trap?, elim_eq_error_iff, Word.quotient?_eq_none_iff]
  | modulus => simp [onWords, apply, Word.scalar, Undefined, trap?, elim_eq_error_iff, Word.remainder?_eq_none_iff]
  | power => simp [onWords, apply, Word.scalar, Undefined, trap?, elim_eq_error_iff, Word.power?_eq_none_iff]

theorem onWords_error (h : op.onWords a b = .error trap) : op.Undefined a.val b.val ∧ trap.IsUndefined :=
  (onWords_eq_error_iff.mp h).imp_right trap?_isUndefined

theorem onWords_of_undefined (h : op.Undefined a.val b.val) : ∃ trap, op.onWords a b = .error trap := by
  obtain ⟨trap, htrap⟩ : ∃ trap, op.trap? = some trap := by
    cases op with
    | add => exact h.elim
    | subtract => exact h.elim
    | multiply => exact h.elim
    | divide => exact ⟨_, rfl⟩
    | modulus => exact ⟨_, rfl⟩
    | power => exact ⟨_, rfl⟩
  exact ⟨trap, onWords_eq_error_iff.mpr ⟨h, htrap⟩⟩

end Arithmetic

/-- Operators on real elements always have a result. -/
theorem Numeric.apply_eq_error {n : Numeric} {op : Arithmetic} {a b : n.Carrier} {trap : Trap}
    (h : n.apply op a b = .error trap) : n = .integer ∧ op.trap? = some trap := by
  cases n with
  | integer => exact ⟨rfl, (Arithmetic.onWords_eq_error_iff.mp h).2⟩
  | real => cases op <;> cases h

theorem Numeric.apply_error {n : Numeric} {op : Arithmetic} {a b : n.Carrier} {trap : Trap}
    (h : n.apply op a b = .error trap) : n = .integer ∧ trap.IsUndefined :=
  (apply_eq_error h).imp_right Arithmetic.trap?_isUndefined

end TypedArrays
