/-! Signed integers of a fixed width.

A `Word w` is an exact integer that lies in the two's complement range of the width `w`. Arithmetic
is exact arithmetic followed by `wrap`, which brings any integer back into the range modulo the
number of bit patterns. `val_wrap_of_fits` says that an integer already in range is kept. -/

namespace TypedArrays

/-- The widths, in bits, that elements and interval bounds come in. -/
inductive Width where
  | w8
  | w16
  | w32
  | w64
deriving DecidableEq

namespace Width

def bits : Width → Nat
  | w8 => 8
  | w16 => 16
  | w32 => 32
  | w64 => 64

/-- How many bit patterns the width has. -/
def modulus : Width → Nat
  | w8 => 0x100
  | w16 => 0x10000
  | w32 => 0x100000000
  | w64 => 0x10000000000000000

/-- The largest integer of the width. -/
def greatest : Width → Int
  | w8 => 0x7f
  | w16 => 0x7fff
  | w32 => 0x7fffffff
  | w64 => 0x7fffffffffffffff

/-- The smallest integer of the width. -/
def least (w : Width) : Int := -(w.greatest + 1)

/-- An exact integer is one of the integers of the width. -/
def Fits (w : Width) (x : Int) : Prop := w.least ≤ x ∧ x ≤ w.greatest

instance (w : Width) (x : Int) : Decidable (w.Fits x) :=
  inferInstanceAs (Decidable (_ ∧ _))

theorem modulus_pos (w : Width) : 0 < w.modulus := by
  cases w <;> decide

/-- The range splits evenly around zero. -/
theorem modulus_eq (w : Width) : (w.modulus : Int) = 2 * (w.greatest + 1) := by
  cases w <;> decide

theorem least_eq (w : Width) : w.least = -(w.greatest + 1) := rfl

theorem greatest_pos (w : Width) : 0 < w.greatest := by
  cases w <;> decide

theorem fits_zero (w : Width) : w.Fits 0 := by
  cases w <;> decide

theorem fits_bmod (w : Width) (x : Int) : w.Fits (x.bmod w.modulus) := by
  have hm := w.modulus_eq
  have hl := w.least_eq
  have hp : 0 < w.modulus := w.modulus_pos
  have h1 : -((w.modulus : Int) / 2) ≤ x.bmod w.modulus := Int.le_bmod hp
  have h2 : x.bmod w.modulus < ((w.modulus : Int) + 1) / 2 := Int.bmod_lt hp
  constructor <;> omega

theorem bmod_of_fits {w : Width} {x : Int} (h : w.Fits x) : x.bmod w.modulus = x := by
  have hm := w.modulus_eq
  have hl := w.least_eq
  obtain ⟨h1, h2⟩ := h
  exact Int.bmod_eq_of_le_mul_two (by omega) (by omega)

/-- A quotient rounded toward zero leaves the width only for the least integer by minus one. -/
theorem fits_tdiv {w : Width} {x y : Int} (hx : w.Fits x) (hy : y ≠ 0) (h : ¬(x = w.least ∧ y = -1)) :
    w.Fits (x.tdiv y) := by
  have hl := w.least_eq
  have hp := w.greatest_pos
  obtain ⟨h1, h2⟩ := hx
  have habs : (x.tdiv y).natAbs ≤ x.natAbs := Int.natAbs_tdiv_le_natAbs x y
  -- No quotient is further from zero than its dividend, so one integer alone could be past the range.
  have hne : x.tdiv y ≠ w.greatest + 1 := by
    intro hq
    have hsame : x.natAbs / y.natAbs = x.natAbs := by
      have hdiv : (x.tdiv y).natAbs = x.natAbs / y.natAbs := Int.natAbs_tdiv x y
      omega
    have hunit : ¬1 < y.natAbs := by
      intro hy
      have hlt := Nat.div_lt_self (by omega : 0 < x.natAbs) hy
      omega
    rcases (by omega : y = 1 ∨ y = -1) with rfl | rfl
    · rw [Int.tdiv_one] at hq
      omega
    · exact h ⟨by omega, rfl⟩
  constructor <;> omega

end Width

/-- A signed integer of width `w`. -/
structure Word (w : Width) where
  val : Int
  fits : w.Fits val
deriving DecidableEq

namespace Word

variable {w : Width}

theorem ext_val {a b : Word w} (h : a.val = b.val) : a = b := by
  cases a
  cases b
  cases h
  rfl

/-- The integer of the width that differs from `x` by a multiple of the number of bit patterns. -/
def wrap (w : Width) (x : Int) : Word w := ⟨x.bmod w.modulus, w.fits_bmod x⟩

theorem val_wrap_of_fits {x : Int} (h : w.Fits x) : (wrap w x).val = x :=
  Width.bmod_of_fits h

theorem wrap_val (a : Word w) : wrap w a.val = a :=
  ext_val (val_wrap_of_fits a.fits)

instance : Inhabited (Word w) := ⟨wrap w 0⟩

instance (n : Nat) : OfNat (Word w) n := ⟨wrap w n⟩

instance : Add (Word w) := ⟨fun a b => wrap w (a.val + b.val)⟩

instance : Sub (Word w) := ⟨fun a b => wrap w (a.val - b.val)⟩

instance : Mul (Word w) := ⟨fun a b => wrap w (a.val * b.val)⟩

instance : Neg (Word w) := ⟨fun a => wrap w (-a.val)⟩

instance : LE (Word w) := ⟨fun a b => a.val ≤ b.val⟩

instance : LT (Word w) := ⟨fun a b => a.val < b.val⟩

instance (a b : Word w) : Decidable (a ≤ b) := inferInstanceAs (Decidable (a.val ≤ b.val))

instance (a b : Word w) : Decidable (a < b) := inferInstanceAs (Decidable (a.val < b.val))

instance : Min (Word w) := ⟨fun a b => if a ≤ b then a else b⟩

instance : Max (Word w) := ⟨fun a b => if a ≤ b then b else a⟩

instance : ToString (Word w) := ⟨fun a => toString a.val⟩

/-- Division rounded toward zero, undefined for the divisor zero. The one quotient that leaves the
range, the least word by minus one, wraps to the least word. -/
def quotient? (a b : Word w) : Option (Word w) :=
  if b.val = 0 then none else some (wrap w (a.val.tdiv b.val))

/-- The remainder that goes with `quotient?`: it has the sign of the dividend. -/
def remainder? (a b : Word w) : Option (Word w) :=
  if b.val = 0 then none else some (wrap w (a.val.tmod b.val))

/-- Wrapped power by repeated squaring. -/
def pow (b : Word w) (n : Nat) : Word w :=
  if n = 0 then 1
  else
    let rest := pow (b * b) (n / 2)
    if n % 2 = 1 then b * rest else rest
termination_by n

/-- Power with a signed exponent. A negative exponent gives the reciprocal rounded toward zero, which
is undefined for the base zero and is zero unless the base is one or minus one. -/
def power? (b v : Word w) : Option (Word w) :=
  if 0 ≤ v.val then some (b.pow v.val.toNat)
  else if b.val = 0 then none
  else if b.val = 1 then some 1
  else if b.val = -1 then some (if v.val % 2 = 0 then 1 else -1)
  else some 0

/-! ### Values of the operations -/

theorem val_one (w : Width) : (1 : Word w).val = 1 := by
  cases w <;> decide

theorem val_neg_one (w : Width) : (-1 : Word w).val = -1 := by
  cases w <;> decide

theorem val_add (a b : Word w) : (a + b).val = (a.val + b.val).bmod w.modulus := rfl

theorem val_sub (a b : Word w) : (a - b).val = (a.val - b.val).bmod w.modulus := rfl

theorem val_mul (a b : Word w) : (a * b).val = (a.val * b.val).bmod w.modulus := rfl

theorem val_neg (a : Word w) : (-a).val = (-a.val).bmod w.modulus := rfl

theorem le_def {a b : Word w} : a ≤ b ↔ a.val ≤ b.val := Iff.rfl

theorem lt_def {a b : Word w} : a < b ↔ a.val < b.val := Iff.rfl

end Word

end TypedArrays
