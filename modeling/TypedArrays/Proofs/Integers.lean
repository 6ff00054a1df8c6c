import TypedArrays.Proofs.Engine
import TypedArrays.Proofs.Residue

/-! Integer containers as families of exact integers.

An integer container of a shape is `ofIntegers` of one integer for every place, each known up to multiples
of the number of bit patterns. Seen this way, an operation on whole containers is an operation on integers,
place by place: it completes if it has a result at every place, and traps if it has none at some place.
Sums, differences, products and opposites need no care for wrapping, since `wrap` respects them. -/

namespace TypedArrays

/-! ### Tables of words -/

namespace Word
variable {w : Width} {n i : Nat} {x : Nat → Int} {a : Word w}

/-- The words of the first `n` integers of a family. -/
def table (w : Width) (n : Nat) (x : Nat → Int) : Array (Word w) := (Array.range n).map fun i => wrap w (x i)

@[simp] theorem size_table : (table w n x).size = n := by
  simp [table]

theorem getElem?_table : (table w n x)[i]? = if i < n then some (wrap w (x i)) else none := by
  by_cases hi : i < n <;> simp [table, hi]

theorem eq_wrap_of_table (h : (table w n x)[i]? = some a) : a = wrap w (x i) := by
  rw [getElem?_table] at h
  split at h
  · exact (Option.some.inj h).symm
  · cases h

theorem map_neg_table : (table w n x).map (fun a => -a) = table w n fun i => -x i := by
  simp [table, Function.comp_def, wrap_neg]

end Word

namespace Form

/-! ### Containers from integers -/

/-- The container of a shape with given storage. -/
def ofStorage : (f : Form) → f.Shape → Storage → f.Carrier
  | vector => fun _ s => ⟨s⟩
  | matrix => fun shape s => ⟨shape.1, shape.2, s⟩

/-- The integer container of a shape with given integers, each brought into the width. -/
def ofIntegers (f : Form) (shape : f.Shape) (x : Nat → Int) : f.Carrier :=
  f.ofStorage shape ⟨.integer, Word.table .w32 (f.lanes shape) x⟩

/-- The integer at a place; where there is none, zero. -/
def integerAt (f : Form) (c : f.Carrier) (i : Nat) : Int :=
  match (f.storage c).read .integer with
  | .ok data => (data[i]?).elim 0 Word.val
  | .error _ => 0

/-- A well-formed integer container of a shape. -/
structure IsInteger (f : Form) (shape : f.Shape) (c : f.Carrier) : Prop where
  wellFormed : f.WellFormed c
  kind : f.kind c = .integer
  shape : f.shape c = shape

variable {f : Form} {shape : f.Shape} {c out : f.Carrier} {x y z : Nat → Int} {i : Nat}

theorem withStorage_eq_ofStorage (c : f.Carrier) (s : Storage) : f.withStorage c s = f.ofStorage (f.shape c) s := by
  cases f <;> rfl

theorem eq_ofStorage (c : f.Carrier) : c = f.ofStorage (f.shape c) (f.storage c) := by
  cases f <;> rfl

theorem storage_ofIntegers (shape : f.Shape) (x : Nat → Int) :
    f.storage (f.ofIntegers shape x) = ⟨.integer, Word.table .w32 (f.lanes shape) x⟩ := by
  cases f <;> rfl

theorem shape_ofIntegers (shape : f.Shape) (x : Nat → Int) : f.shape (f.ofIntegers shape x) = shape := by
  cases f with
  | vector => exact Word.size_table
  | matrix => rfl

theorem ofIntegers_congr (h : ∀ i < f.lanes shape, x i = y i) : f.ofIntegers shape x = f.ofIntegers shape y := by
  have htable : Word.table .w32 (f.lanes shape) x = Word.table .w32 (f.lanes shape) y := by
    refine Array.ext_getElem? fun i => ?_
    rw [Word.getElem?_table, Word.getElem?_table]
    split
    · rw [h i ‹_›]
    · rfl
  rw [ofIntegers, htable, ofIntegers]

theorem integerAt_ofIntegers (x : Nat → Int) (hi : i < f.lanes shape) :
    f.integerAt (f.ofIntegers shape x) i = (Word.wrap .w32 (x i)).val := by
  have hword : (Word.table .w32 (f.lanes shape) x)[i]? = some (Word.wrap .w32 (x i)) := by
    rw [Word.getElem?_table, if_pos hi]
  simp [integerAt, storage_ofIntegers, hword]

theorem fits_integerAt (c : f.Carrier) (i : Nat) : Width.w32.Fits (f.integerAt c i) := by
  unfold integerAt
  split
  · rename_i data _
    cases data[i]? with
    | none => exact Width.w32.fits_zero
    | some word => exact word.fits
  · exact Width.w32.fits_zero

theorem IsInteger.of_alike (h : f.IsInteger shape out) (hc : f.Alike c out) : f.IsInteger shape c where
  wellFormed := h.wellFormed.of_alike hc
  kind := hc.storage.kind.trans h.kind
  shape := hc.shape.trans h.shape

theorem IsInteger.exists_data (h : f.IsInteger shape c) :
    ∃ data : Array (Word .w32), f.storage c = ⟨.integer, data⟩ ∧ data.size = f.lanes shape := by
  obtain ⟨data, hdata, hsize⟩ := Storage.eq_mk h.kind
  exact ⟨data, hdata, hsize.trans (by rw [h.wellFormed.size, h.shape])⟩

theorem IsInteger.eq_ofIntegers (h : f.IsInteger shape c) : c = f.ofIntegers shape (f.integerAt c) := by
  obtain ⟨data, hdata, hsize⟩ := h.exists_data
  have htable : data = Word.table .w32 (f.lanes shape) (f.integerAt c) := by
    refine Array.ext_getElem? fun i => ?_
    rw [Word.getElem?_table, ← hsize]
    by_cases hi : i < data.size <;> simp [integerAt, hdata, hi, Word.wrap_val]
  calc c = f.ofStorage (f.shape c) (f.storage c) := eq_ofStorage c
    _ = f.ofStorage shape ⟨.integer, data⟩ := by rw [h.shape, hdata]
    _ = f.ofIntegers shape (f.integerAt c) := by rw [htable]; rfl

theorem isInteger_ofIntegers (h : f.IsInteger shape c) (x : Nat → Int) : f.IsInteger shape (f.ofIntegers shape x) := by
  refine h.of_alike ⟨⟨?_, ?_⟩, (shape_ofIntegers shape x).trans h.shape.symm⟩
  · rw [storage_ofIntegers]
    exact h.kind.symm
  · obtain ⟨data, hdata, hsize⟩ := h.exists_data
    rw [storage_ofIntegers, hdata]
    exact Word.size_table.trans hsize.symm

/-! ### Operations -/

section Operations
variable (ho : f.IsInteger shape out) (op : Arithmetic)
include ho

theorem IsInteger.withStorage : f.withStorage out = f.ofStorage shape := by
  funext s
  rw [withStorage_eq_ofStorage, ho.shape]

/-- Arithmetic on integer containers of one shape is a loop over places. -/
theorem arithmetic_swept (x y : Nat → Int) : ∃ (o : Array (Word .w32)) (s : Sweep (Word .w32)) (k : Nat),
    o.size = f.lanes shape ∧
    Kernel.Swept (fun i => op.onWords (.wrap .w32 (x i)) (.wrap .w32 (y i))) 0 o.size o s k ∧
    f.arithmetic (some .integer) op out (f.ofIntegers shape x) (f.ofIntegers shape y) =
      (Storage.ofSweep .integer s).map (f.ofStorage shape) := by
  obtain ⟨o, hdata, hsize⟩ := ho.exists_data
  have htable : ∀ x, (Word.table .w32 (f.lanes shape) x).size = o.size := fun x => Word.size_table.trans hsize.symm
  obtain ⟨k, hk⟩ := Kernel.binary_swept (fun i => op.onWords (.wrap .w32 (x i)) (.wrap .w32 (y i)))
    (fun a b => op.onWords a b) (htable x) (htable y) fun i l r hl hr => by
      rw [Word.eq_wrap_of_table hl, Word.eq_wrap_of_table hr]
  refine ⟨o, _, k, hsize, hk, ?_⟩
  rw [arithmetic_some, binaryWith_of_shape (by simp only [shape_ofIntegers]) (by rw [shape_ofIntegers, ho.shape]),
    hdata, storage_ofIntegers, storage_ofIntegers, ho.withStorage]
  exact congrArg _ (Storage.combine_mk ..)

theorem arithmetic_ofIntegers
    (h : ∀ i < f.lanes shape, op.onWords (.wrap .w32 (x i)) (.wrap .w32 (y i)) = .ok (.wrap .w32 (z i))) :
    f.arithmetic (some .integer) op out (f.ofIntegers shape x) (f.ofIntegers shape y) =
      ⟨f.ofIntegers shape z, none⟩ := by
  obtain ⟨o, s, k, hsize, hk, heq⟩ := arithmetic_swept ho op x y
  rw [← hsize] at h
  rw [heq, hk.eq_of_ok h, hsize]
  rfl

theorem arithmetic_of_undefined {a b : f.Carrier} {trap : Trap} (ha : f.IsInteger shape a) (hb : f.IsInteger shape b)
    (hi : i < f.lanes shape) (h : op.Undefined (f.integerAt a i) (f.integerAt b i)) (htrap : op.trap? = some trap) :
    (f.arithmetic (some .integer) op out a b).halt = some (.trap trap) := by
  obtain ⟨o, s, k, hsize, hk, heq⟩ := arithmetic_swept ho op (f.integerAt a) (f.integerAt b)
  have hword : ∀ c, (Word.wrap .w32 (f.integerAt c i)).val = f.integerAt c i := fun c =>
    Word.val_wrap_of_fits (fits_integerAt c i)
  obtain ⟨m, other, hother, hs⟩ := hk.exists_trapped (Nat.zero_le i) (hsize ▸ hi)
    (Arithmetic.onWords_eq_error_iff.mpr ⟨by rwa [hword, hword], htrap⟩)
  -- Whichever place comes first, all places without a result have the trap of the operator.
  cases htrap.symm.trans (Arithmetic.onWords_eq_error_iff.mp hother).2
  rw [← ha.eq_ofIntegers, ← hb.eq_ofIntegers] at heq
  rw [heq]
  simp [Written.map, Storage.ofSweep, hs]

theorem negate_ofIntegers (x : Nat → Int) :
    f.negate (some .integer) out (f.ofIntegers shape x) = ⟨f.ofIntegers shape fun i => -x i, none⟩ := by
  obtain ⟨o, hdata, hsize⟩ := ho.exists_data
  have hrun : Storage.transform .integer .negate (fun a : Word .w32 => -a) ⟨.integer, o⟩
      ⟨.integer, Word.table .w32 (f.lanes shape) x⟩ =
        ⟨⟨.integer, Word.table .w32 (f.lanes shape) fun i => -x i⟩, none⟩ := by
    rw [Storage.transform_mk, Kernel.unary_total _ _ (by simp [hsize]), Word.map_neg_table]
    rfl
  rw [negate_some, unaryWith_of_shape (by rw [shape_ofIntegers, ho.shape]), hdata, storage_ofIntegers, ho.withStorage]
  exact congrArg _ hrun

end Operations

end Form

end TypedArrays
