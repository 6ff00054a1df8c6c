import TypedArrays.Proofs.Engine

/-! Which fault an elementwise operation is refused with.

All operations decide in one order: shapes before kinds, and the left operand is compared with the right
one before the output. `firstFault` says so as a search for the first container at fault, without looking
at how the operations go about it. An operation refuses with that fault and leaves its output as it was;
if there is none, its loop runs. -/

namespace TypedArrays

/-! ### Storages -/

namespace Storage
variable {kind found : Kind} {out lhs rhs : Storage}

theorem combine_refused (g : kind.Carrier → kind.Carrier → Except Trap kind.Carrier)
    (h : [lhs.kind, rhs.kind, out.kind].find? (· ≠ kind) = some found) :
    combine kind g out lhs rhs = .refused out (.kindMismatch kind found) := by
  by_cases hl : lhs.kind = kind
  · by_cases hr : rhs.kind = kind
    · by_cases ho : out.kind = kind
      · simp [hl, hr, ho] at h
      · have hf : out.kind = found := by simpa [hl, hr, ho] using h
        simp only [combine, combineBy, read_of_eq hl, read_of_eq hr, read_of_ne ho, hf]
    · have hf : rhs.kind = found := by simpa [hl, hr] using h
      simp only [combine, combineBy, read_of_eq hl, read_of_ne hr, hf]
  · have hf : lhs.kind = found := by simpa [hl] using h
    simp only [combine, combineBy, read_of_ne hl, hf]

theorem combine_ran (g : kind.Carrier → kind.Carrier → Except Trap kind.Carrier)
    (h : [lhs.kind, rhs.kind, out.kind].find? (· ≠ kind) = none) :
    ∃ o l r, out = ⟨kind, o⟩ ∧ lhs = ⟨kind, l⟩ ∧ rhs = ⟨kind, r⟩ ∧
      combine kind g out lhs rhs = ofSweep kind (Kernel.binary g o l r) := by
  obtain ⟨hl, hr, ho⟩ : lhs.kind = kind ∧ rhs.kind = kind ∧ out.kind = kind := by simpa using h
  obtain ⟨l, rfl, -⟩ := eq_mk hl
  obtain ⟨r, rfl, -⟩ := eq_mk hr
  obtain ⟨o, rfl, -⟩ := eq_mk ho
  exact ⟨o, l, r, rfl, rfl, rfl, combine_mk g o l r⟩

theorem transform_refused (loop : UnaryLoop) (g : kind.Carrier → kind.Carrier)
    (h : [lhs.kind, out.kind].find? (· ≠ kind) = some found) :
    transform kind loop g out lhs = .refused out (.kindMismatch kind found) := by
  by_cases hl : lhs.kind = kind
  · by_cases ho : out.kind = kind
    · simp [hl, ho] at h
    · have hf : out.kind = found := by simpa [hl, ho] using h
      simp only [transform, read_of_eq hl, read_of_ne ho, hf]
  · have hf : lhs.kind = found := by simpa [hl] using h
    simp only [transform, read_of_ne hl, hf]

theorem transform_ran (loop : UnaryLoop) (g : kind.Carrier → kind.Carrier)
    (h : [lhs.kind, out.kind].find? (· ≠ kind) = none) :
    ∃ o l, out = ⟨kind, o⟩ ∧ lhs = ⟨kind, l⟩ ∧
      transform kind loop g out lhs = ofSweep kind (Kernel.unary loop g o l) := by
  obtain ⟨hl, ho⟩ : lhs.kind = kind ∧ out.kind = kind := by simpa using h
  obtain ⟨l, rfl, -⟩ := eq_mk hl
  obtain ⟨o, rfl, -⟩ := eq_mk ho
  exact ⟨o, l, rfl, rfl, transform_mk g loop o l⟩

theorem ofSweep_ne_fault (s : Sweep kind.Carrier) (cause : Fault) : (ofSweep kind s).halt ≠ some (.fault cause) := by
  unfold ofSweep
  cases s.trap <;> simp

end Storage

/-! ### Containers -/

namespace Form

/-- The fault of a left operand and the containers that go with it, in the order in which these are
    compared with it. -/
def firstFault (f : Form) (required : Kind) (lhs : f.Carrier) (others : List f.Carrier) : Option Fault :=
  (((others.map f.shape).find? (· ≠ f.shape lhs)).map (f.mismatch (f.shape lhs))).or
    ((((lhs :: others).map f.kind).find? (· ≠ required)).map (.kindMismatch required))

variable {f : Form}

/-- The output of a loop over two operands of a kind. -/
def Combined (kind : Kind) (g : kind.Carrier → kind.Carrier → Except Trap kind.Carrier) (out lhs rhs : f.Carrier)
    (w : Written f.Carrier) : Prop :=
  ∃ o l r, f.storage out = ⟨kind, o⟩ ∧ f.storage lhs = ⟨kind, l⟩ ∧ f.storage rhs = ⟨kind, r⟩ ∧
    w = (Storage.ofSweep kind (Kernel.binary g o l r)).map (f.withStorage out)

/-- The output of a loop over one operand of a kind. -/
def Transformed (kind : Kind) (loop : UnaryLoop) (g : kind.Carrier → kind.Carrier) (out lhs : f.Carrier)
    (w : Written f.Carrier) : Prop :=
  ∃ o l, f.storage out = ⟨kind, o⟩ ∧ f.storage lhs = ⟨kind, l⟩ ∧
    w = (Storage.ofSweep kind (Kernel.unary loop g o l)).map (f.withStorage out)

/-- A verdict decides how an operation ends. -/
def Decided (verdict : Option Fault) (out : f.Carrier) (Ran : Written f.Carrier → Prop) (w : Written f.Carrier) :
    Prop :=
  (∃ cause, verdict = some cause ∧ w = .refused out cause) ∨ (verdict = none ∧ Ran w)

variable (kind : Kind) (out lhs rhs : f.Carrier)

theorem combine_decided (g : kind.Carrier → kind.Carrier → Except Trap kind.Carrier) :
    Decided (f.firstFault kind lhs [rhs, out]) out (Combined kind g out lhs rhs)
      (f.binaryWith (Storage.combine kind g) out lhs rhs) := by
  by_cases hr : f.shape lhs = f.shape rhs
  · by_cases ho : f.shape lhs = f.shape out
    · rw [binaryWith_of_shape hr ho]
      -- All shapes agree, so the kinds decide.
      have hshapes : [f.shape rhs, f.shape out].find? (· ≠ f.shape lhs) = none := by simp [← hr, ← ho]
      have hkinds : f.firstFault kind lhs [rhs, out] =
          ([f.kind lhs, f.kind rhs, f.kind out].find? (· ≠ kind)).map (.kindMismatch kind) := by
        simp only [firstFault, List.map_cons, List.map_nil, hshapes, Option.map_none, Option.none_or]
      rw [hkinds]
      cases hfound : [f.kind lhs, f.kind rhs, f.kind out].find? (· ≠ kind) with
      | some found =>
        refine Or.inl ⟨_, rfl, ?_⟩
        rw [Storage.combine_refused g hfound]
        cases f <;> rfl
      | none =>
        obtain ⟨o, l, r, hos, hls, hrs, hrun⟩ := Storage.combine_ran g hfound
        exact Or.inr ⟨rfl, o, l, r, hos, hls, hrs, by rw [hrun]⟩
    · refine Or.inl ⟨f.mismatch (f.shape lhs) (f.shape out), ?_, ?_⟩
      · simp [firstFault, ← hr, Ne.symm ho]
      · rw [binaryWith_eq, if_pos hr, if_neg ho]
  · refine Or.inl ⟨f.mismatch (f.shape lhs) (f.shape rhs), ?_, ?_⟩
    · simp [firstFault, Ne.symm hr]
    · rw [binaryWith_eq, if_neg hr]

theorem transform_decided (loop : UnaryLoop) (g : kind.Carrier → kind.Carrier) :
    Decided (f.firstFault kind lhs [out]) out (Transformed kind loop g out lhs)
      (f.unaryWith (Storage.transform kind loop g) out lhs) := by
  by_cases ho : f.shape lhs = f.shape out
  · rw [unaryWith_of_shape ho]
    have hshapes : [f.shape out].find? (· ≠ f.shape lhs) = none := by simp [← ho]
    have hkinds : f.firstFault kind lhs [out] =
        ([f.kind lhs, f.kind out].find? (· ≠ kind)).map (.kindMismatch kind) := by
      simp only [firstFault, List.map_cons, List.map_nil, hshapes, Option.map_none, Option.none_or]
    rw [hkinds]
    cases hfound : [f.kind lhs, f.kind out].find? (· ≠ kind) with
    | some found =>
      refine Or.inl ⟨_, rfl, ?_⟩
      rw [Storage.transform_refused loop g hfound]
      cases f <;> rfl
    | none =>
      obtain ⟨o, l, hos, hls, hrun⟩ := Storage.transform_ran loop g hfound
      exact Or.inr ⟨rfl, o, l, hos, hls, by rw [hrun]⟩
  · refine Or.inl ⟨f.mismatch (f.shape lhs) (f.shape out), ?_, ?_⟩
    · simp [firstFault, Ne.symm ho]
    · rw [unaryWith_eq, if_neg ho]

variable {kind : Kind} {out lhs rhs : f.Carrier} {w : Written f.Carrier}

theorem Combined.ne_fault {g : kind.Carrier → kind.Carrier → Except Trap kind.Carrier}
    (h : Combined kind g out lhs rhs w) (cause : Fault) : w.halt ≠ some (.fault cause) := by
  obtain ⟨o, l, r, -, -, -, rfl⟩ := h
  exact Storage.ofSweep_ne_fault _ cause

theorem Transformed.ne_fault {loop : UnaryLoop} {g : kind.Carrier → kind.Carrier}
    (h : Transformed kind loop g out lhs w) (cause : Fault) : w.halt ≠ some (.fault cause) := by
  obtain ⟨o, l, -, -, rfl⟩ := h
  exact Storage.ofSweep_ne_fault _ cause

end Form

/-! ### Operations -/

/-- The elementwise operations on containers of a form. Arithmetic without a numeric kind takes that of
    the left operand. -/
inductive Operation : Form → Type where
  | arithmetic {f : Form} (at? : Option Numeric) (op : Arithmetic) : Operation f
  | negate {f : Form} (at? : Option Numeric) : Operation f
  | not : Operation .vector
  | logic (op : Logic) : Operation .vector
  | logicScalar (op : Logic) (byte : UInt8) : Operation .vector

namespace Operation
variable {f : Form}

/-- Runs an operation; those with one operand do not look at the right one. -/
def run : {f : Form} → Operation f → (out lhs rhs : f.Carrier) → Written f.Carrier
  | f, arithmetic at? op, out, lhs, rhs => f.arithmetic at? op out lhs rhs
  | f, negate at?, out, lhs, _ => f.negate at? out lhs
  | _, not, out, lhs, _ => Vector.not out lhs
  | _, logic op, out, lhs, rhs => Vector.logic op out lhs rhs
  | _, logicScalar op byte, out, lhs, _ => Vector.logicScalar op out lhs byte

/-- The kind that all containers must have, if the left operand leaves one. -/
def required : Operation f → (lhs : f.Carrier) → Option Kind
  | arithmetic at? _, lhs => (at?.or (f.kind lhs).numeric?).map Numeric.kind
  | negate at?, lhs => (at?.or (f.kind lhs).numeric?).map Numeric.kind
  | not, _ => some .boolean
  | logic _, _ => some .boolean
  | logicScalar _ _, _ => some .boolean

/-- What is compared with the left operand, in this order. -/
def others : Operation f → (out rhs : f.Carrier) → List f.Carrier
  | arithmetic _ _, out, rhs => [rhs, out]
  | negate _, out, _ => [out]
  | not, out, _ => [out]
  | logic _, out, rhs => [rhs, out]
  | logicScalar _ _, out, _ => [out]

/-- The fault that an operation is refused with, if any. -/
def verdict (op : Operation f) (out lhs rhs : f.Carrier) : Option Fault :=
  match op.required lhs with
  | none => some (.unsupportedKind (f.kind lhs))
  | some kind => f.firstFault kind lhs (op.others out rhs)

/-- The loop of an operation, and what it leaves in the output. -/
def Ran (out lhs rhs : f.Carrier) : Operation f → Written f.Carrier → Prop
  | arithmetic _ op, w => ∃ n : Numeric, Form.Combined n.kind (n.apply op) out lhs rhs w
  | negate _, w => ∃ n : Numeric, Form.Transformed n.kind .negate n.negate out lhs w
  | not, w => Form.Transformed (f := .vector) .boolean .not Logic.negate out lhs w
  | logic op, w => Form.Combined (f := .vector) .boolean (fun a b => .ok (op.apply a b)) out lhs rhs w
  | logicScalar op byte, w =>
    Form.Transformed (f := .vector) .boolean .scalar (fun a => op.apply a byte) out lhs w

variable {out lhs rhs : f.Carrier}

theorem Ran.ne_fault {op : Operation f} {w : Written f.Carrier} (h : op.Ran out lhs rhs w) (cause : Fault) :
    w.halt ≠ some (.fault cause) := by
  cases op with
  | arithmetic at? op =>
    obtain ⟨n, h⟩ := h
    exact h.ne_fault cause
  | negate at? =>
    obtain ⟨n, h⟩ := h
    exact h.ne_fault cause
  | not => exact Form.Transformed.ne_fault h cause
  | logic op => exact Form.Combined.ne_fault h cause
  | logicScalar op byte => exact Form.Transformed.ne_fault h cause

theorem arithmetic_decided (n : Numeric) (op : Arithmetic) :
    Form.Decided (f.firstFault n.kind lhs [rhs, out]) out ((arithmetic (some n) op).Ran out lhs rhs)
      (f.arithmetic (some n) op out lhs rhs) := by
  rw [Form.arithmetic_some]
  exact (Form.combine_decided n.kind out lhs rhs (n.apply op)).imp_right fun h => ⟨h.1, n, h.2⟩

theorem negate_decided (n : Numeric) (rhs : f.Carrier) :
    Form.Decided (f.firstFault n.kind lhs [out]) out ((negate (some n)).Ran out lhs rhs)
      (f.negate (some n) out lhs) := by
  rw [Form.negate_some]
  exact (Form.transform_decided n.kind out lhs .negate n.negate).imp_right fun h => ⟨h.1, n, h.2⟩

/-- Every operation is refused as its verdict says, or runs its loop. -/
theorem run_decided (op : Operation f) (out lhs rhs : f.Carrier) :
    Form.Decided (op.verdict out lhs rhs) out (op.Ran out lhs rhs) (op.run out lhs rhs) := by
  cases op with
  | arithmetic at? op =>
    rcases at? with _ | n
    · -- The kind of the left operand stands in for the missing one, unless it is not numeric.
      simp only [verdict, required, run, Form.arithmetic_none, Option.none_or]
      cases (f.kind lhs).numeric? with
      | none => exact Or.inl ⟨_, rfl, rfl⟩
      | some n => exact arithmetic_decided n op
    · exact arithmetic_decided n op
  | negate at? =>
    rcases at? with _ | n
    · simp only [verdict, required, run, Form.negate_none, Option.none_or]
      cases (f.kind lhs).numeric? with
      | none => exact Or.inl ⟨_, rfl, rfl⟩
      | some n => exact negate_decided n rhs
    · exact negate_decided n rhs
  | not => exact Form.transform_decided .boolean out lhs .not Logic.negate
  | logic op => exact Form.combine_decided .boolean out lhs rhs fun a b => .ok (op.apply a b)
  | logicScalar op byte => exact Form.transform_decided .boolean out lhs .scalar fun a => op.apply a byte

/-- For all containers: an operation is refused with a fault exactly if its verdict is that fault, and
    then its output is what it was before; without a fault its loop runs. An operation at the kind of its
    left operand is the operation at that numeric kind. -/
theorem run_classifies_faults (out lhs rhs : f.Carrier) :
    (∀ op : Operation f,
      (∀ cause, (op.run out lhs rhs).halt = some (.fault cause) ↔ op.verdict out lhs rhs = some cause) ∧
      (∀ cause, (op.run out lhs rhs).halt = some (.fault cause) → (op.run out lhs rhs).out = out) ∧
      (op.verdict out lhs rhs = none → op.Ran out lhs rhs (op.run out lhs rhs))) ∧
    ∀ n : Numeric, f.kind lhs = n.kind →
      (∀ op, (arithmetic none op).run out lhs rhs = (arithmetic (some n) op).run out lhs rhs) ∧
      (negate none).run out lhs rhs = (negate (some n)).run out lhs rhs := by
  refine ⟨fun op => ?_, fun n hn => ⟨fun op => Form.arithmetic_of_kind hn op out rhs, Form.negate_of_kind hn out⟩⟩
  rcases op.run_decided out lhs rhs with ⟨cause, hverdict, hrun⟩ | ⟨hverdict, hran⟩
  · rw [hverdict, hrun]
    refine ⟨fun other => ?_, fun _ _ => rfl, fun h => by cases h⟩
    simp [Written.refused]
  · rw [hverdict]
    refine ⟨fun cause => ?_, fun cause h => absurd h (hran.ne_fault cause), fun _ => hran⟩
    exact ⟨fun h => absurd h (hran.ne_fault cause), fun h => by cases h⟩

/-- A quotient of integers by reals into booleans, all of one size: the right operand is at fault, not the
    output, and the output keeps its bytes. -/
theorem run_classifies_faults_of_three_kinds :
    let out := Vector.ofArray .boolean #[1, 0]
    let lhs := Vector.ofArray .integer #[.wrap .w32 6, .wrap .w32 1]
    let rhs := Vector.ofArray .real #[Single.zero, Single.zero]
    let w := (arithmetic (f := .vector) none .divide).run out lhs rhs
    w.halt = some (.fault (.kindMismatch .integer .real)) ∧ w.out = out ∧
      w = (arithmetic (f := .vector) (some .integer) .divide).run out lhs rhs := by
  intro out lhs rhs w
  obtain ⟨hall, hkind⟩ := run_classifies_faults (f := .vector) out lhs rhs
  obtain ⟨hfault, hout, -⟩ := hall (arithmetic none .divide)
  have hhalt := (hfault (.kindMismatch .integer .real)).mpr rfl
  exact ⟨hhalt, hout _ hhalt, (hkind .integer rfl).1 .divide⟩

end Operation

end TypedArrays
