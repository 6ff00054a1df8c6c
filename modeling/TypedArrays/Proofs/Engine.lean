import TypedArrays.Container
import TypedArrays.Interval
import TypedArrays.Proofs.Kernel

/-! Elementwise operations on storages and on containers of either form.

Operands and output that agree in kind and shape run a loop, and the loop is the kernel's. Whatever
happens, the output keeps its kind, its size and its shape (`Alike`). A container is well formed if it
has an element for every place of its shape; then equal shapes mean equal sizes, and the only traps are
those of single lanes. -/

namespace TypedArrays

/-! ### Computations that may fail -/

section Outcomes
variable {ε ε' α β : Type}

theorem bind_eq_ok {x : Except ε α} {f : α → Except ε β} {b : β} : x >>= f = .ok b ↔ ∃ a, x = .ok a ∧ f a = .ok b := by
  cases x <;> simp [bind, Except.bind]

theorem map_eq_ok {x : Except ε α} {f : α → β} {b : β} : x.map f = .ok b ↔ ∃ a, x = .ok a ∧ f a = b := by
  cases x <;> simp [Except.map]

theorem mapError_eq_ok {x : Except ε α} {f : ε → ε'} {a : α} : x.mapError f = .ok a ↔ x = .ok a := by
  cases x with
  | error e => constructor <;> intro h <;> cases h
  | ok b => constructor <;> intro h <;> cases h <;> rfl

theorem bind_eq_error {x : Except ε α} {f : α → Except ε β} {e : ε} :
    x >>= f = .error e ↔ x = .error e ∨ ∃ a, x = .ok a ∧ f a = .error e := by
  cases x <;> simp [bind, Except.bind]

theorem map_eq_error {x : Except ε α} {f : α → β} {e : ε} : x.map f = .error e ↔ x = .error e := by
  cases x <;> simp [Except.map]

theorem mapError_eq_error {x : Except ε α} {f : ε → ε'} {e' : ε'} :
    x.mapError f = .error e' ↔ ∃ e, x = .error e ∧ f e = e' := by
  cases x with
  | error e =>
    constructor
    · intro h
      cases h
      exact ⟨e, rfl, rfl⟩
    · rintro ⟨_, ⟨⟩, rfl⟩
      rfl
  | ok a =>
    constructor
    · intro h
      cases h
    · rintro ⟨_, ⟨⟩, -⟩

end Outcomes

/-! ### Storages -/

namespace Storage

/-- Two storages agree in kind and size. -/
structure Alike (s t : Storage) : Prop where
  kind : s.kind = t.kind
  size : s.size = t.size

theorem Alike.refl (s : Storage) : Alike s s := ⟨rfl, rfl⟩

theorem eq_mk {s : Storage} {kind : Kind} (h : s.kind = kind) : ∃ data, s = ⟨kind, data⟩ ∧ data.size = s.size := by
  subst h
  exact ⟨s.data, rfl, rfl⟩

@[simp] theorem read_mk (kind : Kind) (data : Array kind.Carrier) : read ⟨kind, data⟩ kind = .ok data :=
  read_of_eq rfl

theorem read_eq_ok {s : Storage} {kind : Kind} {data : Array kind.Carrier} (h : s.read kind = .ok data) :
    s = ⟨kind, data⟩ := by
  by_cases hk : s.kind = kind
  · subst hk
    rw [read_of_eq rfl] at h
    cases h
    rfl
  · rw [read_of_ne hk] at h
    cases h

section Loops
variable {kind : Kind} (f : kind.Carrier → kind.Carrier → Except Trap kind.Carrier)
  (g : kind.Carrier → kind.Carrier) (loop : UnaryLoop) (out lhs rhs : Storage)

theorem combine_mk (o l r : Array kind.Carrier) :
    combine kind f ⟨kind, o⟩ ⟨kind, l⟩ ⟨kind, r⟩ = ofSweep kind (Kernel.binary f o l r) := by
  simp only [combine, combineBy, read_mk]

theorem transform_mk (o l : Array kind.Carrier) :
    transform kind loop g ⟨kind, o⟩ ⟨kind, l⟩ = ofSweep kind (Kernel.unary loop g o l) := by
  simp only [transform, read_mk]

/-- A combination is refused, with its output as it was, or it is a loop over storages of its kind. -/
theorem combine_cases : (∃ cause, combine kind f out lhs rhs = .refused out cause) ∨
    ∃ o l r, out = ⟨kind, o⟩ ∧ lhs = ⟨kind, l⟩ ∧ rhs = ⟨kind, r⟩ ∧
      combine kind f out lhs rhs = ofSweep kind (Kernel.binary f o l r) := by
  unfold combine combineBy
  split
  · rename_i l r o hl hr ho
    exact Or.inr ⟨o, l, r, read_eq_ok ho, read_eq_ok hl, read_eq_ok hr, rfl⟩
  · exact Or.inl ⟨_, rfl⟩
  · exact Or.inl ⟨_, rfl⟩
  · exact Or.inl ⟨_, rfl⟩

theorem transform_cases : (∃ cause, transform kind loop g out lhs = .refused out cause) ∨
    ∃ o l, out = ⟨kind, o⟩ ∧ lhs = ⟨kind, l⟩ ∧
      transform kind loop g out lhs = ofSweep kind (Kernel.unary loop g o l) := by
  unfold transform
  split
  · rename_i l o hl ho
    exact Or.inr ⟨o, l, read_eq_ok ho, read_eq_ok hl, rfl⟩
  · exact Or.inl ⟨_, rfl⟩
  · exact Or.inl ⟨_, rfl⟩

theorem combine_alike : Alike (combine kind f out lhs rhs).out out := by
  obtain ⟨cause, h⟩ | ⟨o, l, r, rfl, rfl, rfl, h⟩ := combine_cases f out lhs rhs
  · rw [h]
    exact Alike.refl out
  · rw [h]
    exact ⟨rfl, Kernel.binary_size f o l r⟩

theorem transform_alike : Alike (transform kind loop g out lhs).out out := by
  obtain ⟨cause, h⟩ | ⟨o, l, rfl, rfl, h⟩ := transform_cases g loop out lhs
  · rw [h]
    exact Alike.refl out
  · rw [h]
    exact ⟨rfl, Kernel.unary_size loop g o l⟩

/-- On storages of one size, a combination traps only where a lane does. -/
theorem combine_trap {f : kind.Carrier → kind.Carrier → Except Trap kind.Carrier} {out lhs rhs : Storage}
    (hl : lhs.size = out.size) (hr : rhs.size = out.size) {trap : Trap}
    (h : (combine kind f out lhs rhs).halt = some (.trap trap)) : ∃ a b, f a b = .error trap := by
  obtain ⟨cause, hc⟩ | ⟨o, l, r, rfl, rfl, rfl, hc⟩ := combine_cases f out lhs rhs
  · rw [hc] at h
    simp [Written.refused] at h
  · rw [hc] at h
    have ht : (Kernel.binary f o l r).trap = some trap := by simpa [ofSweep] using h
    -- The lanes are total functions of the index; past the end they may be anything.
    obtain ⟨k, hk⟩ := Kernel.binary_swept (fun j => f (l.getD j default) (r.getD j default)) f hl hr
      fun j a b ha hb => by simp only [Array.getD_eq_getD_getElem?, ha, hb, Option.getD_some]
    exact ⟨_, _, (hk.trapped ht).2.2.1⟩

theorem transform_no_trap {g : kind.Carrier → kind.Carrier} {loop : UnaryLoop} {out lhs : Storage}
    (hl : lhs.size = out.size) (trap : Trap) : (transform kind loop g out lhs).halt ≠ some (.trap trap) := by
  intro h
  obtain ⟨cause, hc⟩ | ⟨o, l, rfl, rfl, hc⟩ := transform_cases g loop out lhs
  · rw [hc] at h
    simp [Written.refused] at h
  · rw [hc] at h
    have ht : (Kernel.unary loop g o l).trap = some trap := by simpa [ofSweep] using h
    obtain ⟨k, hk⟩ := Kernel.unary_swept (fun j => .ok (g (l.getD j default))) loop g (Eq.symm hl)
      fun j a ha => by simp only [Array.getD_eq_getD_getElem?, ha, Option.getD_some]
    have := (hk.trapped ht).2.2.1
    cases this

end Loops

theorem arithmetic_eq_combine (n : Numeric) (op : Arithmetic) : arithmetic n op = combine n.kind (n.apply op) := by
  unfold arithmetic combine
  rw [Kernel.arithmetic_eq_binary]
  rfl

end Storage

/-! ### Containers -/

namespace Form

/-- What containers must agree in to be combined: the size of a vector, rows and columns of a matrix. -/
@[reducible] def Shape : Form → Type
  | vector => Nat
  | matrix => Nat × Nat

instance : (f : Form) → DecidableEq f.Shape
  | vector => inferInstanceAs (DecidableEq Nat)
  | matrix => inferInstanceAs (DecidableEq (Nat × Nat))

def shape : (f : Form) → f.Carrier → f.Shape
  | vector => Vector.size
  | matrix => Matrix.shape

/-- The number of places of a shape. -/
def lanes : (f : Form) → f.Shape → Nat
  | vector => fun size => size
  | matrix => fun shape => shape.1 * shape.2

/-- The fault of two containers whose shapes differ. -/
def mismatch : (f : Form) → f.Shape → f.Shape → Fault
  | vector => .lengthMismatch
  | matrix => .shapeMismatch

/-- A container has an element for every place of its shape. The elements of a vector are its places;
    those of a matrix are also few enough to be counted by a size. -/
def WellFormed : (f : Form) → f.Carrier → Prop
  | vector => fun _ => True
  | matrix => fun m => m.size = m.rows * m.columns ∧ m.rows * m.columns < sizeLimit

/-- Two containers agree in kind, size and shape. -/
structure Alike (f : Form) (c d : f.Carrier) : Prop where
  storage : Storage.Alike (f.storage c) (f.storage d)
  shape : f.shape c = f.shape d

variable {f : Form}

theorem Alike.refl (c : f.Carrier) : f.Alike c c := ⟨.refl _, rfl⟩

theorem WellFormed.size {c : f.Carrier} (h : f.WellFormed c) : (f.storage c).size = f.lanes (f.shape c) := by
  cases f with
  | vector => rfl
  | matrix => exact h.1

theorem WellFormed.of_alike {c d : f.Carrier} (h : f.WellFormed d) (hc : f.Alike c d) : f.WellFormed c := by
  cases f with
  | vector => trivial
  | matrix =>
    obtain ⟨⟨-, hsize⟩, hshape⟩ := hc
    obtain ⟨hrows, hcolumns⟩ := Prod.mk.inj hshape
    refine ⟨?_, ?_⟩
    · rw [hrows, hcolumns]
      exact hsize.trans h.1
    · rw [hrows, hcolumns]
      exact h.2

@[simp] theorem storage_withStorage (c : f.Carrier) (s : Storage) : f.storage (f.withStorage c s) = s := by
  cases f <;> rfl

theorem withStorage_alike {c : f.Carrier} {s : Storage} (h : Storage.Alike s (f.storage c)) :
    f.Alike (f.withStorage c s) c := by
  refine ⟨by rw [storage_withStorage]; exact h, ?_⟩
  cases f with
  | vector => exact h.size
  | matrix => rfl

theorem checkSame_eq (c d : f.Carrier) :
    f.checkSame c d = if f.shape c = f.shape d then .ok () else .error (f.mismatch (f.shape c) (f.shape d)) := by
  cases f <;> rfl

/-- Runs an operation on storages if the shapes of all three containers agree. -/
def binaryWith : (f : Form) → (Storage → Storage → Storage → Written Storage) → (out lhs rhs : f.Carrier) →
    Written f.Carrier
  | vector => Vector.binaryWith
  | matrix => Matrix.binaryWith

/-- Runs an operation on storages if the shapes of both containers agree. -/
def unaryWith : (f : Form) → (Storage → Storage → Written Storage) → (out lhs : f.Carrier) → Written f.Carrier
  | vector => Vector.unaryWith
  | matrix => Matrix.unaryWith

theorem arithmetic_some (n : Numeric) (op : Arithmetic) :
    f.arithmetic (some n) op = f.binaryWith (Storage.combine n.kind (n.apply op)) := by
  rw [← Storage.arithmetic_eq_combine]
  cases f <;> rfl

theorem negate_some (n : Numeric) : f.negate (some n) = f.unaryWith (Storage.negate n) := by
  cases f <;> rfl

theorem arithmetic_none (op : Arithmetic) (out lhs rhs : f.Carrier) :
    f.arithmetic none op out lhs rhs =
      match (f.kind lhs).numeric? with
      | some n => f.arithmetic (some n) op out lhs rhs
      | none => .refused out (.unsupportedKind (f.kind lhs)) := by
  cases f <;> rfl

theorem negate_none (out lhs : f.Carrier) :
    f.negate none out lhs =
      match (f.kind lhs).numeric? with
      | some n => f.negate (some n) out lhs
      | none => .refused out (.unsupportedKind (f.kind lhs)) := by
  cases f <;> rfl

theorem arithmetic_of_kind {n : Numeric} {lhs : f.Carrier} (h : f.kind lhs = n.kind) (op : Arithmetic)
    (out rhs : f.Carrier) : f.arithmetic none op out lhs rhs = f.arithmetic (some n) op out lhs rhs := by
  rw [arithmetic_none, h]
  cases n <;> rfl

theorem negate_of_kind {n : Numeric} {lhs : f.Carrier} (h : f.kind lhs = n.kind) (out : f.Carrier) :
    f.negate none out lhs = f.negate (some n) out lhs := by
  rw [negate_none, h]
  cases n <;> rfl

section Operations
variable {run : Storage → Storage → Storage → Written Storage} {run₁ : Storage → Storage → Written Storage}
  {out lhs rhs : f.Carrier}

/-- The outcome of a two-operand operation is decided by the shapes of operands and output. -/
theorem binaryWith_eq : f.binaryWith run out lhs rhs =
    if f.shape lhs = f.shape rhs then
      if f.shape lhs = f.shape out then
        (run (f.storage out) (f.storage lhs) (f.storage rhs)).map (f.withStorage out)
      else .refused out (f.mismatch (f.shape lhs) (f.shape out))
    else .refused out (f.mismatch (f.shape lhs) (f.shape rhs)) := by
  by_cases hr : f.shape lhs = f.shape rhs
  · have hr' : f.checkSame lhs rhs = .ok () := by rw [checkSame_eq, if_pos hr]
    rw [if_pos hr]
    by_cases ho : f.shape lhs = f.shape out
    · have ho' : f.checkSame lhs out = .ok () := by rw [checkSame_eq, if_pos ho]
      rw [if_pos ho]
      cases f <;> simp only [binaryWith, Vector.binaryWith, Matrix.binaryWith, checkSame] at hr' ho' ⊢ <;>
        rw [hr', ho'] <;> rfl
    · have ho' : f.checkSame lhs out = .error (f.mismatch (f.shape lhs) (f.shape out)) := by
        rw [checkSame_eq, if_neg ho]
      rw [if_neg ho]
      cases f <;> simp only [binaryWith, Vector.binaryWith, Matrix.binaryWith, checkSame] at hr' ho' ⊢ <;>
        rw [hr', ho']
  · have hr' : f.checkSame lhs rhs = .error (f.mismatch (f.shape lhs) (f.shape rhs)) := by
      rw [checkSame_eq, if_neg hr]
    rw [if_neg hr]
    cases f <;> simp only [binaryWith, Vector.binaryWith, Matrix.binaryWith, checkSame] at hr' ⊢ <;> rw [hr']

theorem unaryWith_eq : f.unaryWith run₁ out lhs =
    if f.shape lhs = f.shape out then (run₁ (f.storage out) (f.storage lhs)).map (f.withStorage out)
    else .refused out (f.mismatch (f.shape lhs) (f.shape out)) := by
  by_cases ho : f.shape lhs = f.shape out
  · have ho' : f.checkSame lhs out = .ok () := by rw [checkSame_eq, if_pos ho]
    rw [if_pos ho]
    cases f <;> simp only [unaryWith, Vector.unaryWith, Matrix.unaryWith, checkSame] at ho' ⊢ <;> rw [ho'] <;> rfl
  · have ho' : f.checkSame lhs out = .error (f.mismatch (f.shape lhs) (f.shape out)) := by
      rw [checkSame_eq, if_neg ho]
    rw [if_neg ho]
    cases f <;> simp only [unaryWith, Vector.unaryWith, Matrix.unaryWith, checkSame] at ho' ⊢ <;> rw [ho']

theorem binaryWith_of_shape (hr : f.shape lhs = f.shape rhs) (ho : f.shape lhs = f.shape out) :
    f.binaryWith run out lhs rhs = (run (f.storage out) (f.storage lhs) (f.storage rhs)).map (f.withStorage out) := by
  rw [binaryWith_eq, if_pos hr, if_pos ho]

theorem unaryWith_of_shape (ho : f.shape lhs = f.shape out) :
    f.unaryWith run₁ out lhs = (run₁ (f.storage out) (f.storage lhs)).map (f.withStorage out) := by
  rw [unaryWith_eq, if_pos ho]

/-- An operation that keeps kind and size of its output storage keeps those of its output container. -/
theorem binaryWith_alike (h : ∀ o l r, Storage.Alike (run o l r).out o) :
    f.Alike (f.binaryWith run out lhs rhs).out out := by
  rw [binaryWith_eq]
  split
  · split
    · exact withStorage_alike (h _ _ _)
    · exact Alike.refl out
  · exact Alike.refl out

theorem unaryWith_alike (h : ∀ o l, Storage.Alike (run₁ o l).out o) :
    f.Alike (f.unaryWith run₁ out lhs).out out := by
  rw [unaryWith_eq]
  split
  · exact withStorage_alike (h _ _)
  · exact Alike.refl out

/-- A trap comes from the operation on storages, and only when all shapes agree. -/
theorem binaryWith_trap {trap : Trap} (h : (f.binaryWith run out lhs rhs).halt = some (.trap trap)) :
    f.shape lhs = f.shape rhs ∧ f.shape lhs = f.shape out ∧
      (run (f.storage out) (f.storage lhs) (f.storage rhs)).halt = some (.trap trap) := by
  rw [binaryWith_eq] at h
  split at h
  · rename_i hr
    split at h
    · rename_i ho
      exact ⟨hr, ho, h⟩
    · simp [Written.refused] at h
  · simp [Written.refused] at h

theorem unaryWith_trap {trap : Trap} (h : (f.unaryWith run₁ out lhs).halt = some (.trap trap)) :
    f.shape lhs = f.shape out ∧ (run₁ (f.storage out) (f.storage lhs)).halt = some (.trap trap) := by
  rw [unaryWith_eq] at h
  split at h
  · rename_i ho
    exact ⟨ho, h⟩
  · simp [Written.refused] at h

theorem WellFormed.size_eq {c d : f.Carrier} (hc : f.WellFormed c) (hd : f.WellFormed d)
    (h : f.shape c = f.shape d) : (f.storage c).size = (f.storage d).size := by
  rw [hc.size, hd.size, h]

end Operations

/-! ### Arithmetic at a given kind or at that of the operand -/

section Arithmetic
variable (at? : Option Numeric) (op : Arithmetic) (out lhs rhs : f.Carrier)

/-- Arithmetic is refused for the kind of its left operand or runs at one numeric kind. -/
theorem arithmetic_cases : (∃ cause, f.arithmetic at? op out lhs rhs = .refused out cause) ∨
    ∃ n : Numeric, f.arithmetic at? op out lhs rhs =
      f.binaryWith (Storage.combine n.kind (n.apply op)) out lhs rhs := by
  cases at? with
  | some n => exact Or.inr ⟨n, by rw [arithmetic_some]⟩
  | none =>
    rw [arithmetic_none]
    split
    · rename_i n _
      exact Or.inr ⟨n, by rw [arithmetic_some]⟩
    · exact Or.inl ⟨_, rfl⟩

theorem negate_cases : (∃ cause, f.negate at? out lhs = .refused out cause) ∨
    ∃ n, f.negate at? out lhs = f.unaryWith (Storage.negate n) out lhs := by
  cases at? with
  | some n => exact Or.inr ⟨n, by rw [negate_some]⟩
  | none =>
    rw [negate_none]
    split
    · rename_i n _
      exact Or.inr ⟨n, by rw [negate_some]⟩
    · exact Or.inl ⟨_, rfl⟩

theorem arithmetic_alike : f.Alike (f.arithmetic at? op out lhs rhs).out out := by
  obtain ⟨cause, h⟩ | ⟨n, h⟩ := arithmetic_cases at? op out lhs rhs
  · rw [h]
    exact Alike.refl out
  · rw [h]
    exact binaryWith_alike fun _ _ _ => Storage.combine_alike ..

theorem negate_alike : f.Alike (f.negate at? out lhs).out out := by
  obtain ⟨cause, h⟩ | ⟨n, h⟩ := negate_cases at? out lhs
  · rw [h]
    exact Alike.refl out
  · rw [h]
    exact unaryWith_alike fun _ _ => Storage.transform_alike ..

/-- On well-formed containers arithmetic traps only where a lane does. -/
theorem arithmetic_trap {at? : Option Numeric} {op : Arithmetic} {out lhs rhs : f.Carrier} (ho : f.WellFormed out)
    (hl : f.WellFormed lhs) (hr : f.WellFormed rhs) {trap : Trap}
    (h : (f.arithmetic at? op out lhs rhs).halt = some (.trap trap)) :
    ∃ (n : Numeric) (a b : n.Carrier), n.apply op a b = .error trap := by
  obtain ⟨cause, hc⟩ | ⟨n, hc⟩ := arithmetic_cases at? op out lhs rhs
  · rw [hc] at h
    simp [Written.refused] at h
  · rw [hc] at h
    obtain ⟨hlr, hlo, h⟩ := binaryWith_trap h
    obtain ⟨a, b, hab⟩ := Storage.combine_trap (hl.size_eq ho hlo) (hr.size_eq ho (hlr.symm.trans hlo)) h
    exact ⟨n, a, b, hab⟩

theorem negate_no_trap {at? : Option Numeric} {out lhs : f.Carrier} (ho : f.WellFormed out) (hl : f.WellFormed lhs)
    (trap : Trap) : (f.negate at? out lhs).halt ≠ some (.trap trap) := by
  intro h
  obtain ⟨cause, hc⟩ | ⟨n, hc⟩ := negate_cases at? out lhs
  · rw [hc] at h
    simp [Written.refused] at h
  · rw [hc] at h
    obtain ⟨hlo, h⟩ := unaryWith_trap h
    exact Storage.transform_no_trap (hl.size_eq ho hlo) trap h

end Arithmetic

end Form

/-! ### Making containers and boolean vectors -/

namespace Matrix

theorem sizeOf_eq_ok {rows columns size : Nat} (h : sizeOf rows columns = .ok size) :
    size = rows * columns ∧ rows * columns < sizeLimit := by
  unfold sizeOf at h
  split at h
  · rename_i hlt
    cases h
    exact ⟨rfl, hlt⟩
  · cases h

theorem wellFormed_zeroed {kind : Kind} {rows columns : Nat} {m : Matrix} (h : zeroed kind rows columns = .ok m) :
    Form.matrix.WellFormed m := by
  simp only [zeroed, bind_eq_ok, pure, Except.pure, Except.ok.injEq] at h
  obtain ⟨size, hsize, s, hs, rfl⟩ := h
  obtain ⟨rfl, hlt⟩ := sizeOf_eq_ok hsize
  unfold Storage.zeroed at hs
  split at hs
  · cases hs
    exact ⟨Array.size_replicate, hlt⟩
  · cases hs

theorem wellFormed_allocate {kind : Kind} {rows columns : Int} {m : Matrix} (h : allocate kind rows columns = .ok m) :
    Form.matrix.WellFormed m := by
  unfold allocate at h
  split at h
  · cases h
  · split at h
    · cases h
    · exact wellFormed_zeroed (mapError_eq_ok.mp h)

theorem wellFormed_ofArray {kind : Kind} {rows columns : Nat} {data : Array kind.Carrier} {m : Matrix}
    (h : ofArray kind rows columns data = .ok m) : Form.matrix.WellFormed m := by
  simp only [ofArray, bind_eq_ok, mapError_eq_ok] at h
  obtain ⟨size, hsize, h⟩ := h
  obtain ⟨rfl, hlt⟩ := sizeOf_eq_ok hsize
  split at h
  · rename_i hdata
    cases h
    exact ⟨hdata, hlt⟩
  · cases h

end Matrix

namespace Vector

theorem not_alike (out lhs : Vector) : Form.vector.Alike (not out lhs).out out :=
  Form.unaryWith_alike (f := .vector) fun _ _ => Storage.transform_alike ..

theorem logic_alike (op : Logic) (out lhs rhs : Vector) : Form.vector.Alike (logic op out lhs rhs).out out :=
  Form.binaryWith_alike (f := .vector) fun _ _ _ => Storage.combine_alike ..

theorem logicScalar_alike (op : Logic) (rhs : UInt8) (out lhs : Vector) :
    Form.vector.Alike (logicScalar op out lhs rhs).out out :=
  Form.unaryWith_alike (f := .vector) fun _ _ => Storage.transform_alike ..

theorem logic_no_trap (op : Logic) (out lhs rhs : Vector) (trap : Trap) :
    (logic op out lhs rhs).halt ≠ some (.trap trap) := by
  intro h
  obtain ⟨hr, ho, h⟩ := Form.binaryWith_trap (f := .vector) h
  obtain ⟨a, b, hab⟩ := Storage.combine_trap ho (hr.symm.trans ho) h
  cases hab

theorem logicScalar_no_trap (op : Logic) (out lhs : Vector) (rhs : UInt8) (trap : Trap) :
    (logicScalar op out lhs rhs).halt ≠ some (.trap trap) := by
  intro h
  obtain ⟨ho, h⟩ := Form.unaryWith_trap (f := .vector) h
  exact Storage.transform_no_trap ho trap h

theorem not_no_trap (out lhs : Vector) (trap : Trap) : (not out lhs).halt ≠ some (.trap trap) := by
  intro h
  obtain ⟨ho, h⟩ := Form.unaryWith_trap (f := .vector) h
  exact Storage.transform_no_trap ho trap h

end Vector

/-! ### Vectors of stepped words -/

theorem Progression.count_le {w : Width} (first last step : Word w) : count first last step ≤ w.modulus := by
  unfold count
  split
  · exact Nat.zero_le _
  · rename_i hle
    rw [Word.lt_def] at hle
    have hspan : last.val - first.val ≤ 2 * w.greatest + 1 := by
      have hlast := last.fits.2
      have hfirst := first.fits.1
      have hleast := w.least_eq
      omega
    have hdiv : (last.val - first.val) / step.val ≤ last.val - first.val := Int.ediv_le_self _ (by omega)
    have hmod := Nat.mod_le ((last.val - first.val) / step.val + 1).toNat countLimit
    have hmodulus := w.modulus_eq
    omega

namespace Interval
variable (range : Interval .w32) {step : Word .w32}

theorem stepped_bytes_le (step : Word .w32) :
    (Progression.ofBounds range.lower range.upper step).remaining * Kind.integer.bytes ≤ maxBytes := by
  have hcount := Progression.count_le range.lower range.upper step
  simp only [Progression.ofBounds, Kind.bytes, Width.modulus, maxBytes] at hcount ⊢
  omega

theorem stepRange_of_lt (h : step.val < 1) : range.stepRange step = .error (.fault (.invalidStep step.val)) := by
  unfold stepRange
  rw [stepped_of_lt h]
  rfl

theorem stepRange_of_le (h : 1 ≤ step.val) :
    range.stepRange step = .ok (.ofArray .integer (Progression.ofBounds range.lower range.upper step).toArray) := by
  unfold stepRange
  rw [stepped_of_le h]
  exact if_pos (range.stepped_bytes_le step)

theorem stepRange_ne_trap (step : Word .w32) (trap : Trap) : range.stepRange step ≠ .error (.trap trap) := by
  by_cases h : step.val < 1
  · simp [range.stepRange_of_lt h]
  · simp [range.stepRange_of_le (Int.not_lt.mp h)]

end Interval

end TypedArrays
