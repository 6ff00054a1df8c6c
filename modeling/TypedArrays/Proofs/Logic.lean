import TypedArrays.Proofs.Engine

/-! Logic on bytes, on truth values and on boolean vectors.

The loops behind logic never trap: a logic operation is refused, or its output is given by one equation.
Whatever the operands hold, such an output is canonical, all zeros and ones. On canonical operands the
operators are those of truth values, `xor` included, which by itself looks at lowest bits only. -/

namespace TypedArrays

namespace Logic

/-- The operator on truth values. -/
def onBools (a b : Bool) : Logic → Bool
  | or => a || b
  | xor => a != b
  | and => a && b

theorem apply_byte (op : Logic) (a b : Bool) : op.apply (byte a) (byte b) = byte (op.onBools a b) := by
  cases op <;> cases a <;> cases b <;> rfl

theorem negate_byte (a : Bool) : negate (byte a) = byte (!a) := by
  cases a <;> rfl

/-- A byte that stands for a truth value. -/
def IsBit (b : UInt8) : Prop := b = 0 ∨ b = 1

theorem isBit_byte (a : Bool) : IsBit (byte a) := by
  cases a
  · exact Or.inl rfl
  · exact Or.inr rfl

theorem IsBit.eq_byte {b : UInt8} (h : IsBit b) : b = byte (b != 0) := by
  rcases h with rfl | rfl <;> rfl

theorem isBit_lowest (b : UInt8) : IsBit (b &&& 1) := by
  have hmod : (b &&& 1).toNat = b.toNat % 2 := by
    rw [UInt8.toNat_and]
    exact Nat.and_one_is_mod b.toNat
  rcases Nat.mod_two_eq_zero_or_one b.toNat with h | h
  · exact Or.inl (UInt8.toNat_inj.mp (hmod.trans h))
  · exact Or.inr (UInt8.toNat_inj.mp (hmod.trans h))

theorem isBit_apply (op : Logic) (a b : UInt8) : IsBit (op.apply a b) := by
  cases op with
  | or => exact isBit_byte _
  | xor => exact isBit_lowest _
  | and => exact isBit_byte _

theorem isBit_negate (a : UInt8) : IsBit (negate a) := isBit_byte _

end Logic

/-! ### Operations that complete -/

namespace Form
variable {f : Form} {kind : Kind} {out lhs rhs : f.Carrier}

/-- An operation completes only on containers of its kind and of one shape. -/
theorem combine_completed {g : kind.Carrier → kind.Carrier → Except Trap kind.Carrier}
    (h : (f.binaryWith (Storage.combine kind g) out lhs rhs).halt = none) :
    f.shape lhs = f.shape rhs ∧ f.shape lhs = f.shape out ∧
      ∃ o l r, f.storage out = ⟨kind, o⟩ ∧ f.storage lhs = ⟨kind, l⟩ ∧ f.storage rhs = ⟨kind, r⟩ := by
  rw [binaryWith_eq] at h
  split at h
  · rename_i hr
    split at h
    · rename_i ho
      obtain ⟨cause, hc⟩ | ⟨o, l, r, hos, hls, hrs, -⟩ :=
        Storage.combine_cases g (f.storage out) (f.storage lhs) (f.storage rhs)
      · rw [hc] at h
        cases h
      · exact ⟨hr, ho, o, l, r, hos, hls, hrs⟩
    · cases h
  · cases h

theorem transform_completed {loop : UnaryLoop} {g : kind.Carrier → kind.Carrier}
    (h : (f.unaryWith (Storage.transform kind loop g) out lhs).halt = none) :
    f.shape lhs = f.shape out ∧ ∃ o l, f.storage out = ⟨kind, o⟩ ∧ f.storage lhs = ⟨kind, l⟩ := by
  rw [unaryWith_eq] at h
  split at h
  · rename_i ho
    obtain ⟨cause, hc⟩ | ⟨o, l, hos, hls, -⟩ := Storage.transform_cases g loop (f.storage out) (f.storage lhs)
    · rw [hc] at h
      cases h
    · exact ⟨ho, o, l, hos, hls⟩
  · cases h

end Form

namespace Vector

theorem eq_ofArray {v : Vector} {kind : Kind} {data : Array kind.Carrier} (h : v.storage = ⟨kind, data⟩) :
    v = ofArray kind data := congrArg mk h

/-! ### Boolean vectors of one size -/

section Equations
variable {o l r : Array UInt8}

theorem logic_ofArray (op : Logic) (hl : l.size = o.size) (hr : r.size = o.size) :
    logic op (ofArray .boolean o) (ofArray .boolean l) (ofArray .boolean r) =
      ⟨ofArray .boolean (Array.zipWith op.apply l r), none⟩ := by
  have hlr : Form.vector.shape (ofArray .boolean l) = Form.vector.shape (ofArray .boolean r) := hl.trans hr.symm
  have hlo : Form.vector.shape (ofArray .boolean l) = Form.vector.shape (ofArray .boolean o) := hl
  refine (Form.binaryWith_of_shape hlr hlo).trans ?_
  simp only [Form.storage, ofArray, Storage.logic, Storage.combine_mk]
  rw [Kernel.binary_total op.apply hl hr]
  rfl

theorem transform_ofArray (loop : UnaryLoop) (g : UInt8 → UInt8) (hl : l.size = o.size) :
    unaryWith (Storage.transform .boolean loop g) (ofArray .boolean o) (ofArray .boolean l) =
      ⟨ofArray .boolean (l.map g), none⟩ := by
  have hlo : Form.vector.shape (ofArray .boolean l) = Form.vector.shape (ofArray .boolean o) := hl
  refine (Form.unaryWith_of_shape hlo).trans ?_
  simp only [Form.storage, ofArray, Storage.transform_mk]
  rw [Kernel.unary_total loop g hl.symm]
  rfl

end Equations

section Completed
variable {op : Logic} {out lhs rhs : Vector}

theorem logic_completed (h : (logic op out lhs rhs).halt = none) :
    ∃ l r : Array UInt8, logic op out lhs rhs = ⟨ofArray .boolean (Array.zipWith op.apply l r), none⟩ := by
  obtain ⟨hr, ho, o, l, r, hos, hls, hrs⟩ := Form.combine_completed (f := .vector) h
  obtain rfl := eq_ofArray hos
  obtain rfl := eq_ofArray hls
  obtain rfl := eq_ofArray hrs
  exact ⟨l, r, logic_ofArray op ho (hr.symm.trans ho)⟩

theorem transform_completed {loop : UnaryLoop} {g : UInt8 → UInt8}
    (h : (unaryWith (Storage.transform .boolean loop g) out lhs).halt = none) :
    ∃ l : Array UInt8, unaryWith (Storage.transform .boolean loop g) out lhs = ⟨ofArray .boolean (l.map g), none⟩ := by
  obtain ⟨ho, o, l, hos, hls⟩ := Form.transform_completed (f := .vector) h
  obtain rfl := eq_ofArray hos
  obtain rfl := eq_ofArray hls
  exact ⟨l, transform_ofArray loop g ho⟩

end Completed

/-! ### Canonical vectors -/

/-- The bytes of a boolean vector are zeros and ones; vectors of other kinds have no such bytes. -/
def Canonical (v : Vector) : Prop := ∀ data, v = ofArray .boolean data → ∀ byte ∈ data, byte = 0 ∨ byte = 1

theorem canonical_of_kind {v : Vector} (h : v.kind ≠ .boolean) : v.Canonical := by
  rintro data rfl
  exact absurd rfl h

theorem canonical_ofArray {data : Array UInt8} (h : ∀ byte ∈ data, Logic.IsBit byte) :
    (ofArray .boolean data).Canonical := by
  intro data' heq
  cases heq
  exact h

/-- A logic operation that completes leaves a canonical output, whatever its operands hold. -/
theorem logic_canonical {op : Logic} {out lhs rhs : Vector} (h : (logic op out lhs rhs).halt = none) :
    (logic op out lhs rhs).out.Canonical := by
  obtain ⟨l, r, heq⟩ := logic_completed h
  rw [heq]
  refine canonical_ofArray fun byte hbyte => ?_
  obtain ⟨i, hi, rfl⟩ := Array.mem_iff_getElem.mp hbyte
  rw [Array.getElem_zipWith]
  exact Logic.isBit_apply op _ _

theorem transform_canonical {loop : UnaryLoop} {g : UInt8 → UInt8} {out lhs : Vector} (hg : ∀ b, Logic.IsBit (g b))
    (h : (unaryWith (Storage.transform .boolean loop g) out lhs).halt = none) :
    (unaryWith (Storage.transform .boolean loop g) out lhs).out.Canonical := by
  obtain ⟨l, heq⟩ := transform_completed h
  rw [heq]
  refine canonical_ofArray fun byte hbyte => ?_
  obtain ⟨b, -, rfl⟩ := Array.mem_map.mp hbyte
  exact hg b

theorem not_canonical {out lhs : Vector} (h : (not out lhs).halt = none) : (not out lhs).out.Canonical :=
  transform_canonical Logic.isBit_negate h

theorem logicScalar_canonical {op : Logic} {out lhs : Vector} {rhs : UInt8}
    (h : (logicScalar op out lhs rhs).halt = none) : (logicScalar op out lhs rhs).out.Canonical :=
  transform_canonical (fun b => Logic.isBit_apply op b rhs) h

/-! ### Vectors of truth values -/

/-- The boolean vector of the first truth values of a sequence. -/
def ofTruth (n : Nat) (truth : Nat → Bool) : Vector :=
  ofArray .boolean ((Array.range n).map fun i => Logic.byte (truth i))

/-- Whether the byte at a place of a boolean vector is true. -/
def truth (v : Vector) (i : Nat) : Bool :=
  match v.storage.read .boolean with
  | .ok data => data[i]?.any (· != 0)
  | .error _ => false

theorem Canonical.eq_ofTruth {v : Vector} (h : v.Canonical) (hkind : v.kind = .boolean) :
    v = ofTruth v.size v.truth := by
  obtain ⟨data, hdata, -⟩ := Storage.eq_mk hkind
  obtain rfl := eq_ofArray hdata
  have hbits := h data rfl
  refine congrArg (ofArray .boolean) (Array.ext_getElem? fun i => ?_)
  have htruth : ∀ j, truth (ofArray .boolean data) j = data[j]?.any (· != 0) := fun j => by
    simp only [truth, ofArray, Storage.read_mk]
  have hsize : size (ofArray .boolean data) = data.size := rfl
  simp only [Array.getElem?_map, Array.getElem?_range, htruth, hsize]
  by_cases hi : i < data.size
  · rw [if_pos hi, Option.map_some, Array.getElem?_eq_getElem hi]
    exact congrArg some (Logic.IsBit.eq_byte (hbits _ (Array.getElem_mem hi)))
  · rw [Array.getElem?_eq_none (by omega), if_neg hi]
    rfl

section Homomorphisms
variable {n : Nat} {s t : Nat → Bool} {out : Vector}

theorem logic_ofTruth (op : Logic) (hkind : out.kind = .boolean) (hsize : out.size = n) :
    logic op out (ofTruth n s) (ofTruth n t) = ⟨ofTruth n fun i => op.onBools (s i) (t i), none⟩ := by
  obtain ⟨o, ho, hn⟩ := Storage.eq_mk hkind
  obtain rfl := eq_ofArray ho
  have hn : o.size = n := hn.trans hsize
  rw [ofTruth, ofTruth, logic_ofArray op (by simp [hn]) (by simp [hn]), Array.zipWith_map, Array.zipWith_self]
  simp only [Logic.apply_byte]
  rfl

theorem not_ofTruth (hkind : out.kind = .boolean) (hsize : out.size = n) :
    not out (ofTruth n s) = ⟨ofTruth n fun i => !s i, none⟩ := by
  obtain ⟨o, ho, hn⟩ := Storage.eq_mk hkind
  obtain rfl := eq_ofArray ho
  have hn : o.size = n := hn.trans hsize
  refine (transform_ofArray .not Logic.negate (by simp [hn])).trans ?_
  rw [Array.map_map]
  simp only [Function.comp_def, Logic.negate_byte]
  rfl

end Homomorphisms

end Vector

end TypedArrays
