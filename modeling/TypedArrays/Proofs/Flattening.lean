import TypedArrays.Proofs.Refusal
import TypedArrays.Proofs.RowMajor

/-! Operations on matrices as operations on vectors.

A matrix is flattened by a vector that holds its elements row after row. On matrices of one shape an operation
does what it does on flattening vectors: the two agree in how they end, in the fault or the trap, and in every
element that was written. Only the comparison of shapes tells the two apart, since different shapes can have the
same number of places. -/

namespace TypedArrays

namespace Matrix
variable {m : Matrix} {v : Vector}

/-! ### Flattening -/

/-- The elements of a matrix in flat order. -/
def flatten (m : Matrix) : Vector := ⟨m.storage⟩

/-- A vector holds the elements of a matrix row after row. -/
structure Flattens (m : Matrix) (v : Vector) : Prop where
  kind : v.kind = m.kind
  elements : ∀ data, v.storage.read m.kind = .ok data → m.listing m.kind = data.toList.map some

theorem flattens_flatten (hm : Form.matrix.WellFormed m) : m.Flattens m.flatten :=
  ⟨rfl, fun _ hread => listing_eq hm (Storage.read_eq_ok hread)⟩

/-- No other vector flattens a matrix. -/
theorem Flattens.eq_flatten (hm : Form.matrix.WellFormed m) (h : m.Flattens v) : v = m.flatten := by
  obtain ⟨data, hdata, -⟩ := Storage.eq_mk h.kind
  have hread : v.storage.read m.kind = .ok data := by rw [hdata, Storage.read_mk]
  have hsome : data.toList.map some = m.storage.data.toList.map some :=
    (h.elements data hread).symm.trans (listing_eq hm rfl)
  have heq : data = m.storage.data := Array.toList_inj.mp ((List.map_inj_right fun _ _ => Option.some.inj).mp hsome)
  rw [heq] at hdata
  exact congrArg Vector.mk hdata

end Matrix

/-! ### Operations on flat elements -/

namespace Operation
variable {out lhs rhs : Matrix}

/-- The operation that vectors have for one that matrices have. -/
def onVectors : Operation .matrix → Operation .vector
  | arithmetic at? op => arithmetic at? op
  | negate at? => negate at?

section Loops
variable (hout : Form.matrix.WellFormed out) (hlhs : Form.matrix.WellFormed lhs) (ho : lhs.shape = out.shape)
include hout hlhs ho

theorem unaryWith_flatten (run : Storage → Storage → Written Storage) :
    Form.vector.unaryWith run out.flatten lhs.flatten = (Form.matrix.unaryWith run out lhs).map Matrix.flatten := by
  have hsize : Form.vector.shape lhs.flatten = Form.vector.shape out.flatten := hlhs.size_eq hout ho
  rw [Form.unaryWith_of_shape hsize, Form.unaryWith_of_shape (f := .matrix) ho]
  rfl

theorem binaryWith_flatten (hrhs : Form.matrix.WellFormed rhs) (hr : lhs.shape = rhs.shape)
    (run : Storage → Storage → Storage → Written Storage) :
    Form.vector.binaryWith run out.flatten lhs.flatten rhs.flatten =
      (Form.matrix.binaryWith run out lhs rhs).map Matrix.flatten := by
  have hsize : Form.vector.shape lhs.flatten = Form.vector.shape out.flatten := hlhs.size_eq hout ho
  have hsize' : Form.vector.shape lhs.flatten = Form.vector.shape rhs.flatten := hlhs.size_eq hrhs hr
  rw [Form.binaryWith_of_shape hsize' hsize, Form.binaryWith_of_shape (f := .matrix) hr ho]
  rfl

end Loops

/-- On matrices of one shape, flattening before an operation comes to the same as flattening after it. -/
theorem run_flatten (op : Operation .matrix) (h : ∀ m ∈ [out, lhs, rhs], Form.matrix.WellFormed m)
    (hshape : ∀ m ∈ op.others out rhs, lhs.shape = m.shape) :
    op.onVectors.run out.flatten lhs.flatten rhs.flatten = (op.run out lhs rhs).map Matrix.flatten := by
  simp only [List.forall_mem_cons] at h
  obtain ⟨hout, hlhs, hrhs, -⟩ := h
  cases op with
  | arithmetic at? op =>
    simp only [others, List.forall_mem_cons] at hshape
    obtain ⟨hr, ho, -⟩ := hshape
    have htyped : ∀ n, Form.vector.arithmetic (some n) op out.flatten lhs.flatten rhs.flatten =
        (Form.matrix.arithmetic (some n) op out lhs rhs).map Matrix.flatten := fun n => by
      rw [Form.arithmetic_some, Form.arithmetic_some]
      exact binaryWith_flatten hout hlhs ho hrhs hr _
    rcases at? with _ | n
    · -- The left operand and its flattening have one kind, so both calls take the same branch.
      have hkind : Form.vector.kind lhs.flatten = Form.matrix.kind lhs := rfl
      simp only [onVectors, run, Form.arithmetic_none, hkind]
      cases (Form.matrix.kind lhs).numeric? with
      | none => rfl
      | some n => exact htyped n
    · exact htyped n
  | negate at? =>
    have ho : lhs.shape = out.shape := hshape out (List.mem_singleton_self out)
    have htyped : ∀ n, Form.vector.negate (some n) out.flatten lhs.flatten =
        (Form.matrix.negate (some n) out lhs).map Matrix.flatten := fun n => by
      rw [Form.negate_some, Form.negate_some]
      exact unaryWith_flatten hout hlhs ho _
    rcases at? with _ | n
    · have hkind : Form.vector.kind lhs.flatten = Form.matrix.kind lhs := rfl
      simp only [onVectors, run, Form.negate_none, hkind]
      cases (Form.matrix.kind lhs).numeric? with
      | none => rfl
      | some n => exact htyped n
    · exact htyped n

theorem run_alike (op : Operation .matrix) : Form.matrix.Alike (op.run out lhs rhs).out out := by
  cases op with
  | arithmetic at? op => exact Form.arithmetic_alike ..
  | negate at? => exact Form.negate_alike ..

/-! ### Faults -/

section Verdicts
variable {f : Form} {op : Operation f} {out lhs rhs : f.Carrier}

/-- Containers of one shape are refused for a kind only. -/
theorem verdict_of_shape (hshape : ∀ c ∈ op.others out rhs, f.shape lhs = f.shape c) {cause : Fault}
    (h : op.verdict out lhs rhs = some cause) :
    (∃ expected found, cause = .kindMismatch expected found) ∨ ∃ kind, cause = .unsupportedKind kind := by
  unfold verdict at h
  split at h
  · exact Or.inr ⟨_, (Option.some.inj h).symm⟩
  · rename_i kind _
    have hshapes : ((op.others out rhs).map f.shape).find? (· ≠ f.shape lhs) = none := by
      refine List.find?_eq_none.mpr fun shape hmem => ?_
      obtain ⟨c, hc, rfl⟩ := List.mem_map.mp hmem
      simp [hshape c hc]
    rw [Form.firstFault, hshapes, Option.map_none, Option.none_or] at h
    obtain ⟨found, -, rfl⟩ := Option.map_eq_some_iff.mp h
    exact Or.inl ⟨kind, found, rfl⟩

/-- Containers of different shapes are always refused. -/
theorem verdict_of_mismatch {c : f.Carrier} (hc : c ∈ op.others out rhs) (hne : f.shape lhs ≠ f.shape c) :
    ∃ cause, op.verdict out lhs rhs = some cause := by
  unfold verdict
  split
  · exact ⟨_, rfl⟩
  · have hfound : (((op.others out rhs).map f.shape).find? (· ≠ f.shape lhs)).isSome :=
      List.find?_isSome.mpr ⟨f.shape c, List.mem_map_of_mem hc, by simp [Ne.symm hne]⟩
    obtain ⟨shape, hshape⟩ := Option.isSome_iff_exists.mp hfound
    rw [Form.firstFault, hshape, Option.map_some, Option.some_or]
    exact ⟨_, rfl⟩

end Verdicts

/-! ### Agreement -/

/-- How an operation on matrices and one on vectors end alike: both complete with the same elements, or both are
    refused for a kind with their outputs as they were, or both trap after the same elements. -/
inductive Agree (out : Matrix) (o : Vector) : Written Matrix → Written Vector → Prop where
  | completed {m : Matrix} {v : Vector} (elements : m.Flattens v) : Agree out o ⟨m, none⟩ ⟨v, none⟩
  | refused {cause : Fault}
      (kinds : (∃ expected found, cause = .kindMismatch expected found) ∨ ∃ kind, cause = .unsupportedKind kind) :
      Agree out o (.refused out cause) (.refused o cause)
  | trapped {m : Matrix} {v : Vector} {trap : Trap} (elements : m.Flattens v) :
      Agree out o ⟨m, some (.trap trap)⟩ ⟨v, some (.trap trap)⟩

theorem run_agrees {op : Operation .matrix} (h : ∀ m ∈ [out, lhs, rhs], Form.matrix.WellFormed m)
    (hshape : ∀ m ∈ op.others out rhs, lhs.shape = m.shape) :
    Agree out out.flatten (op.run out lhs rhs) (op.onVectors.run out.flatten lhs.flatten rhs.flatten) := by
  rw [run_flatten op h hshape]
  have hout : Form.matrix.WellFormed (op.run out lhs rhs).out :=
    (h out List.mem_cons_self).of_alike (run_alike op)
  rcases op.run_decided out lhs rhs with ⟨cause, hverdict, hrun⟩ | ⟨-, hran⟩
  · rw [hrun]
    exact .refused (verdict_of_shape hshape hverdict)
  · have hfault := hran.ne_fault
    have helements := Matrix.flattens_flatten hout
    generalize op.run out lhs rhs = w at hfault helements
    obtain ⟨m, _ | cause | trap⟩ := w
    · exact .completed helements
    · exact absurd rfl (hfault cause)
    · exact .trapped helements

theorem out_mem_others (op : Operation .matrix) : out ∈ op.others out rhs := by
  cases op <;> simp [others]

theorem run_of_mismatch {op : Operation .matrix} {m : Matrix} (hm : m ∈ op.others out rhs)
    (hne : lhs.shape ≠ m.shape) : ∃ cause, op.run out lhs rhs = .refused out cause := by
  obtain ⟨cause, hverdict⟩ := verdict_of_mismatch hm hne
  rcases op.run_decided out lhs rhs with ⟨found, -, hrun⟩ | ⟨hnone, -⟩
  · exact ⟨found, hrun⟩
  · rw [hverdict] at hnone
    cases hnone

/-! ### Shapes with as many places -/

/-- There is a number that every operator has a result for. -/
theorem exists_total (n : Numeric) : ∃ a : n.Carrier, ∀ op, ∃ value, n.apply op a a = .ok value := by
  cases n with
  | integer =>
    refine ⟨(1 : Word .w32), fun op => ?_⟩
    cases op <;> exact ⟨_, rfl⟩
  | real =>
    refine ⟨Single.zero, fun op => ?_⟩
    cases op <;> exact ⟨_, rfl⟩

theorem trap_of_replicate {α : Type} {f : α → α → Except Trap α} {a value : α} (h : f a a = .ok value)
    (size : Nat) : (Kernel.binary f (.replicate size a) (.replicate size a) (.replicate size a)).trap = none := by
  have hsize : (Array.replicate size a).size = (Array.replicate size a).size := rfl
  obtain ⟨k, hk⟩ := Kernel.binary_swept (fun _ => f a a) f hsize hsize fun j l r hl hr => by
    rw [Array.eq_of_mem_replicate (Array.mem_of_getElem? hl), Array.eq_of_mem_replicate (Array.mem_of_getElem? hr)]
  exact hk.trap_eq_none fun _ _ _ => ⟨value, h⟩

/-- An operation has flat elements of any number that it completes on. -/
theorem exists_completed (op : Operation .matrix) (size : Nat) :
    ∃ s : Storage, s.size = size ∧ (op.onVectors.run ⟨s⟩ ⟨s⟩ ⟨s⟩).halt = none := by
  cases op with
  | arithmetic at? op =>
    obtain ⟨a, ha⟩ := exists_total (at?.getD .integer)
    obtain ⟨value, hvalue⟩ := ha op
    let v : Vector := .ofArray (at?.getD .integer).kind (.replicate size a)
    have htyped : Form.vector.arithmetic at? op v v v =
        Form.vector.arithmetic (some (at?.getD .integer)) op v v v := by
      rcases at? with _ | n
      · exact Form.arithmetic_of_kind (f := .vector) rfl op v v
      · rfl
    refine ⟨v.storage, Array.size_replicate, ?_⟩
    simp only [onVectors, run]
    rw [show (⟨v.storage⟩ : Vector) = v from rfl, htyped, Form.arithmetic_some, Form.binaryWith_of_shape rfl rfl]
    simp only [Written.map, Form.storage, v, Vector.ofArray, Storage.combine_mk, Storage.ofSweep,
      trap_of_replicate hvalue size, Option.map_none]
  | negate at? =>
    let v : Vector := .ofArray (at?.getD .integer).kind (.replicate size default)
    have htyped : Form.vector.negate at? v v = Form.vector.negate (some (at?.getD .integer)) v v := by
      rcases at? with _ | n
      · exact Form.negate_of_kind (f := .vector) rfl v
      · rfl
    refine ⟨v.storage, Array.size_replicate, ?_⟩
    simp only [onVectors, run]
    rw [show (⟨v.storage⟩ : Vector) = v from rfl, htyped, Form.negate_some, Form.unaryWith_of_shape rfl]
    simp only [Written.map, Form.storage, v, Vector.ofArray, Storage.negate, Storage.transform_mk, Storage.ofSweep,
      Kernel.unary_total, Option.map_none]

/-- On well-formed matrices, which all reachable ones are, an operation agrees with the one on vectors that hold
    the same elements row after row, whenever the matrices have one shape. If they do not, it is always refused.
    The vectors then may well have one size and the operation on them may complete: for any two shapes with as
    many places there are matrices where it does. -/
theorem run_agrees_on_flattened (op : Operation .matrix) :
    (∀ {out lhs rhs : Matrix} {o l r : Vector}, (∀ m ∈ [out, lhs, rhs], Form.matrix.WellFormed m) →
      out.Flattens o → lhs.Flattens l → rhs.Flattens r →
      ((∀ m ∈ op.others out rhs, lhs.shape = m.shape) →
        Agree out o (op.run out lhs rhs) (op.onVectors.run o l r)) ∧
      ((∃ m ∈ op.others out rhs, lhs.shape ≠ m.shape) → ∃ cause, op.run out lhs rhs = .refused out cause)) ∧
    ∀ s t : Nat × Nat, s ≠ t → s.1 * s.2 = t.1 * t.2 → s.1 * s.2 < sizeLimit →
      ∃ out lhs rhs : Matrix, (∀ m ∈ [out, lhs, rhs], Form.matrix.WellFormed m) ∧
        lhs.shape = s ∧ rhs.shape = t ∧ out.shape = t ∧ (op.run out lhs rhs).halt ≠ none ∧
        (op.onVectors.run out.flatten lhs.flatten rhs.flatten).halt = none := by
  refine ⟨fun {out lhs rhs o l r} h ho hl hr => ⟨fun hshape => ?_, fun hmismatch => ?_⟩,
    fun s t hne hsize hlimit => ?_⟩
  · rw [ho.eq_flatten (h out (by simp)), hl.eq_flatten (h lhs (by simp)), hr.eq_flatten (h rhs (by simp))]
    exact run_agrees h hshape
  · obtain ⟨m, hm, hne⟩ := hmismatch
    exact run_of_mismatch hm hne
  · obtain ⟨flat, hflat, hcompleted⟩ := exists_completed op (s.1 * s.2)
    have hs : Form.matrix.WellFormed ⟨s.1, s.2, flat⟩ := ⟨hflat, hlimit⟩
    have ht : Form.matrix.WellFormed ⟨t.1, t.2, flat⟩ := ⟨hflat.trans hsize, hsize ▸ hlimit⟩
    refine ⟨⟨t.1, t.2, flat⟩, ⟨s.1, s.2, flat⟩, ⟨t.1, t.2, flat⟩, by simp [hs, ht], rfl, rfl, rfl, ?_,
      hcompleted⟩
    have hshape : Matrix.shape ⟨s.1, s.2, flat⟩ ≠ Matrix.shape ⟨t.1, t.2, flat⟩ := hne
    obtain ⟨cause, hrun⟩ := run_of_mismatch (out_mem_others op) hshape
    rw [hrun]
    exact fun h => nomatch h

/-- A division whose second lane traps, the same division by a column of as many elements, and matrices without
    elements. -/
theorem run_agrees_on_flattened_at_zero_divisor :
    let m := fun rows columns (x y : Int) => Matrix.mk rows columns ⟨.integer, #[.wrap .w32 x, .wrap .w32 y]⟩
    let op : Operation .matrix := .arithmetic none .divide
    let out := m 1 2 9 9
    let lhs := m 1 2 8 7
    (∀ c ∈ [out, lhs, m 1 2 2 0, m 2 1 2 1], Form.matrix.WellFormed c) ∧
      Agree out out.flatten (op.run out lhs (m 1 2 2 0))
        (op.onVectors.run out.flatten lhs.flatten (m 1 2 2 0).flatten) ∧
      op.run out lhs (m 1 2 2 0) = ⟨m 1 2 4 9, some (.trap .divideByZero)⟩ ∧
      (∃ cause, op.run out lhs (m 2 1 2 1) = .refused out cause) ∧
      op.onVectors.run out.flatten lhs.flatten (m 2 1 2 1).flatten = ⟨(m 1 2 4 7).flatten, none⟩ ∧
      ∃ out lhs rhs : Matrix, lhs.shape = (0, 3) ∧ rhs.shape = (3, 0) ∧ (op.run out lhs rhs).halt ≠ none ∧
        (op.onVectors.run out.flatten lhs.flatten rhs.flatten).halt = none := by
  intro m op out lhs
  have hwide : ∀ x y, Form.matrix.WellFormed (m 1 2 x y) := fun _ _ => ⟨rfl, (by decide : 1 * 2 < sizeLimit)⟩
  have htall : ∀ x y, Form.matrix.WellFormed (m 2 1 x y) := fun _ _ => ⟨rfl, (by decide : 2 * 1 < sizeLimit)⟩
  have hflat : ∀ {c : Matrix}, Form.matrix.WellFormed c → c.Flattens c.flatten := Matrix.flattens_flatten
  obtain ⟨hagree, -⟩ := (run_agrees_on_flattened op).1 (by simp [hwide]) (hflat (hwide 9 9))
    (hflat (hwide 8 7)) (hflat (hwide 2 0))
  obtain ⟨-, hrefused⟩ := (run_agrees_on_flattened op).1 (by simp [hwide, htall]) (hflat (hwide 9 9))
    (hflat (hwide 8 7)) (hflat (htall 2 1))
  obtain ⟨o, l, r, -, hl, hr, -, hhalt, hdone⟩ :=
    (run_agrees_on_flattened op).2 (0, 3) (3, 0) (by decide) (by decide) (by decide)
  refine ⟨by simp [out, lhs, hwide, htall], hagree ?_, rfl, hrefused ⟨m 2 1 2 1, ?_, ?_⟩, rfl, o, l, r, hl, hr,
    hhalt, hdone⟩
  · simp [op, others, m, Matrix.shape]
  · simp [op, others]
  · decide

end Operation

end TypedArrays
