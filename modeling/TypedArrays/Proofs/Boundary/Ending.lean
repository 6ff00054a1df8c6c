import TypedArrays.Proofs.Boundary.Heap

/-! How calls end.

`Ended` lists all that can come of a call: one of its pointers is null, an operand is not live, a trap, a
fault with the one error event that goes with it, or completion with the report of that call. What calls
report is read off from these cases, with no further look at what a call does. -/

namespace TypedArrays.Boundary

/-! ### Pointers -/

/-- The first null of some pointers, each given by its role and whether it is null. -/
def firstNull : List (Role × Bool) → Option Role
  | [] => none
  | (role, isNull) :: rest => if isNull then some role else firstNull rest

namespace Call

/-- The pointers of a call that must not be null, in the order in which they are looked at. -/
def pointers : HandleCall → List (Role × Bool)
  | .size p => [(.operand, p.isNone)]
  | .rows p => [(.operand, p.isNone)]
  | .columns p => [(.operand, p.isNone)]
  | .kind _ p => [(.operand, p.isNone)]
  | .data _ p _ => [(.operand, p.isNone)]
  | .checkSame _ lhs rhs => [(.operand, lhs.isNone), (.operand, rhs.isNone)]
  | .arithmetic _ _ out lhs rhs => [(.output, out.isNone), (.lhs, lhs.isNone), (.rhs, rhs.isNone)]
  | .negate _ out lhs => [(.output, out.isNone), (.lhs, lhs.isNone)]
  | .not out lhs => [(.output, out.isNone), (.lhs, lhs.isNone)]
  | .logic _ out lhs rhs => [(.output, out.isNone), (.lhs, lhs.isNone), (.rhs, rhs.isNone)]
  | .logicScalar _ out lhs _ => [(.output, out.isNone), (.lhs, lhs.isNone)]
  | .equal lhs rhs => [(.operand, lhs.isNone), (.operand, rhs.isNone)]
  | .notEqual lhs rhs => [(.operand, lhs.isNone), (.operand, rhs.isNone)]
  | .intervalBy out _ _ => [(.output, out.isNone)]
  | _ => []

/-- What a completed call reports, next to the value that it hands back. -/
def Reports (c : HandleCall) (value : Value) (events : List Event) : Prop :=
  match c with
  | .newVector _ length => ∃ k, events = [.allocatedVector k length]
  | .newMatrix _ height width => ∃ k, events = [.allocatedMatrix k height width]
  | .free form target => events = if target.isNone then [] else [.freeing form]
  | .checkSame _ _ _ =>
    (value = .number Status.ok.code ∧ events = []) ∨
      ∃ cause : Fault, value = .number cause.status.code ∧ events = [.checkFailed cause]
  | .intervalBy _ _ _ => ∃ e : Event, events = [e] ∧ e.level = .debug
  | _ => events = []

end Call

/-- All that can come of a call whose first null pointer is known, if there is one. -/
inductive Ended (entry : String) (first : Option Role) (Reports : Value → List Event → Prop) : Reaction → Prop where
  | null {role : Role} (found : first = some role) : Ended entry first Reports ⟨[], .error (.nullPointer entry role)⟩
  | dangling (found : first = none) : Ended entry first Reports ⟨[], .error (.dangling entry)⟩
  | trapped (found : first = none) (trap : Trap) : Ended entry first Reports ⟨[], .error (.trap trap)⟩
  | refused (found : first = none) (cause : Fault) :
      Ended entry first Reports ⟨[.invalidOperands entry cause], .error (.invalidOperands entry cause)⟩
  | completed (found : first = none) {value : Value} {events : List Event} {after : Heap}
      (reports : Reports value events) : Ended entry first Reports ⟨events, .ok (value, after)⟩

/-- What comes of looking at the pointers of a call: the first null one, or at worst one that is not live. -/
def Screened (entry : String) {α : Type} (x : Except Abort α) : Option Role → Prop
  | some role => x = .error (.nullPointer entry role)
  | none => ∀ abort, x = .error abort → abort = .dangling entry

section Screening
variable {entry : String} {α β : Type} {heap : Heap} {f : Form}

theorem Screened.nonNull {role : Role} {p : Option α} {k : α → Except Abort β} {rest : List (Role × Bool)}
    (h : ∀ a, Screened entry (k a) (firstNull rest)) :
    Screened entry (nonNull entry role p >>= k) (firstNull ((role, p.isNone) :: rest)) := by
  cases p with
  | none => rfl
  | some a => exact h a

theorem Screened.bind {x : Except Abort α} {k : α → Except Abort β} (hx : Screened entry x none)
    (hk : ∀ a, Screened entry (k a) none) : Screened entry (x >>= k) none := by
  intro abort h
  rcases bind_eq_error.mp h with h | ⟨a, -, h⟩
  · exact hx abort h
  · exact hk a abort h

theorem Screened.ok (a : α) : Screened entry (.ok a) none := by
  intro abort h
  cases h

theorem Screened.deref (p : Handle f) : Screened entry (heap.deref entry p) none := by
  intro abort h
  unfold Heap.deref at h
  cases hp : heap.get? p with
  | none =>
    rw [hp] at h
    cases h
    rfl
  | some c =>
    rw [hp] at h
    cases h

theorem Screened.operand (out p : Handle f) : Screened entry (heap.operand entry out p) none := by
  intro abort h
  unfold Heap.operand at h
  split at h
  · exact Screened.deref p abort (map_eq_error.mp h)
  · cases h

theorem Screened.readOperand (x : Heap.Operand f) : Screened entry (heap.readOperand entry x) none := by
  cases x with
  | copied value => exact Screened.ok value
  | borrowed p => exact Screened.deref p

end Screening

section Endings
variable {entry : String} {first : Option Role} {Reports : Value → List Event → Prop} {heap : Heap} {f : Form}

theorem Ended.guarded {α : Type} {x : Except Abort α} {goOn : α → Reaction} (hx : Screened entry x first)
    (hk : first = none → ∀ a, Ended entry first Reports (goOn a)) : Ended entry first Reports (.guarded x goOn) := by
  cases first with
  | some role =>
    rw [hx]
    exact .null rfl
  | none =>
    cases x with
    | ok a => exact hk rfl a
    | error abort =>
      obtain rfl := hx abort rfl
      exact .dangling rfl

theorem Ended.silent {x : Except Abort (Value × Heap)} (hx : Screened entry x first)
    (hk : ∀ value, Reports value []) : Ended entry first Reports (.silent x) := by
  have hguarded : Reaction.silent x = .guarded x fun done => .silent (.ok done) := by cases x <;> rfl
  rw [hguarded]
  exact .guarded hx fun found done => .completed found (hk done.1)

theorem Ended.halted (found : first = none) (cause : Halt) : Ended entry first Reports (.halted entry cause) := by
  cases cause with
  | fault cause => exact .refused found cause
  | trap trap => exact .trapped found trap

theorem Ended.complete (found : first = none) (hk : ∀ value, Reports value []) (out : Handle f)
    (w : Written f.Carrier) : Ended entry first Reports (heap.complete entry out w) := by
  unfold Heap.complete
  split
  · exact .halted found _
  · exact .completed found (hk _)

end Endings

/-! ### Calls -/

section Calls
variable (heap : Heap) (entry : String) {f : Form}

/-- The report of calls that complete without a word. -/
def Quiet (_ : Value) (events : List Event) : Prop := events = []

theorem quiet_nil (value : Value) : Quiet value [] := rfl

theorem binary_ended (run : (out lhs rhs : f.Carrier) → Written f.Carrier) (out lhs rhs : Pointer f) :
    Ended entry (firstNull [(.output, out.isNone), (.lhs, lhs.isNone), (.rhs, rhs.isNone)]) Quiet
      (heap.binary entry run out lhs rhs) := by
  refine .guarded ?_ fun found ⟨_, _⟩ => .complete found quiet_nil _ _
  refine .nonNull fun p => .nonNull fun q => .nonNull fun r => ?_
  refine .bind (.operand p q) fun x => .bind (.operand p r) fun y => .bind (.deref p) fun o => ?_
  exact .bind (.readOperand x) fun l => .bind (.readOperand y) fun r => .ok _

theorem unary_ended (run : (out lhs : f.Carrier) → Written f.Carrier) (out lhs : Pointer f) :
    Ended entry (firstNull [(.output, out.isNone), (.lhs, lhs.isNone)]) Quiet (heap.unary entry run out lhs) := by
  refine .guarded ?_ fun found ⟨_, _⟩ => .complete found quiet_nil _ _
  refine .nonNull fun p => .nonNull fun q => ?_
  exact .bind (.operand p q) fun x => .bind (.deref p) fun o => .bind (.readOperand x) fun l => .ok _

theorem inspect_ended (p : Pointer f) (view : f.Carrier → Value) :
    Ended entry (firstNull [(.operand, p.isNone)]) Quiet (heap.inspect entry p view) :=
  .silent (.nonNull fun q => .bind (.deref q) fun _ => .ok _) quiet_nil

theorem exchange_ended (p : Pointer f) (stored : List Int) :
    Ended entry (firstNull [(.operand, p.isNone)]) Quiet (heap.exchange entry p stored) :=
  .silent (.nonNull fun q => .bind (.deref q) fun _ => .ok _) quiet_nil

theorem operands_screened (lhs rhs : Pointer f) :
    Screened entry (heap.operands entry lhs rhs) (firstNull [(.operand, lhs.isNone), (.operand, rhs.isNone)]) :=
  .nonNull fun p => .nonNull fun q => .bind (.deref p) fun _ => .bind (.deref q) fun _ => .ok _

theorem check_ended (lhs rhs : Pointer f) :
    Ended entry (firstNull [(.operand, lhs.isNone), (.operand, rhs.isNone)])
      (Call.Reports (.checkSame f lhs rhs)) (heap.check entry lhs rhs) := by
  refine .guarded (operands_screened heap entry lhs rhs) fun found ⟨l, r⟩ => ?_
  dsimp only
  split
  · exact .completed found (Or.inl ⟨rfl, rfl⟩)
  · rename_i cause _
    exact .completed found (Or.inr ⟨cause, rfl, rfl⟩)

theorem compare_ended (run : Vector → Vector → Except Fault Bool) (lhs rhs : Pointer .vector) :
    Ended entry (firstNull [(.operand, lhs.isNone), (.operand, rhs.isNone)]) Quiet (heap.compare entry run lhs rhs) := by
  refine .guarded (operands_screened heap entry lhs rhs) fun found ⟨l, r⟩ => ?_
  dsimp only
  split
  · exact .completed found rfl
  · exact .refused found _

theorem allocate_ended (tag : Int) (make : Kind → Except Halt f.Carrier) (event : Kind → Event) :
    Ended entry none (fun _ events => ∃ kind, events = [event kind]) (heap.allocate entry tag make event) := by
  unfold Heap.allocate
  split
  · exact .refused rfl _
  · rename_i kind _
    split
    · exact .halted rfl _
    · exact .completed rfl ⟨kind, rfl⟩

theorem free_ended (p : Pointer f) :
    Ended entry none (fun _ events => events = if p.isNone then [] else [.freeing f]) (heap.free entry p) := by
  cases p with
  | none => exact .completed rfl rfl
  | some p => exact .guarded (.deref p) fun _ _ => .completed rfl rfl

theorem fillCell_some (content : Pointer .vector) (range : Interval .w32) (step : Word .w32) :
    ∃ e value after, heap.fillCell entry (some content) range step = ⟨[e], .ok (value, after)⟩ ∧ e.level = .debug := by
  by_cases h : step.val < 1
  · exact ⟨_, _, _, Heap.fillCell_of_lt h, rfl⟩
  · exact ⟨_, _, _, Heap.fillCell_of_le (Int.not_lt.mp h), rfl⟩

theorem fillCell_ended (out : OutCell) (range : Interval .w32) (step : Word .w32) :
    Ended entry (firstNull [(.output, out.isNone)]) (Call.Reports (.intervalBy out range step))
      (heap.fillCell entry out range step) := by
  cases out with
  | none => exact .null rfl
  | some content =>
    obtain ⟨e, value, after, h, hlevel⟩ := fillCell_some heap entry content range step
    rw [h]
    exact .completed rfl ⟨e, rfl, hlevel⟩

theorem call_ended (c : HandleCall) : Ended c.entry (firstNull c.pointers) c.Reports (heap.call c) := by
  cases c with
  | newVector tag size => exact allocate_ended (f := .vector) heap _ tag _ _
  | newMatrix tag rows columns => exact allocate_ended (f := .matrix) heap _ tag _ _
  | free form target => exact free_ended heap _ target
  | size target => exact inspect_ended heap _ target _
  | rows target => exact inspect_ended heap _ target _
  | columns target => exact inspect_ended heap _ target _
  | kind form target => exact inspect_ended heap _ target _
  | data form target stored => exact exchange_ended heap _ target stored
  | checkSame form lhs rhs => exact check_ended heap _ lhs rhs
  | arithmetic form op out lhs rhs => exact binary_ended heap _ _ out lhs rhs
  | negate form out lhs => exact unary_ended heap _ _ out lhs
  | not out lhs => exact unary_ended (f := .vector) heap _ _ out lhs
  | logic op out lhs rhs => exact binary_ended (f := .vector) heap _ _ out lhs rhs
  | logicScalar op out lhs rhs => exact unary_ended (f := .vector) heap _ _ out lhs
  | equal lhs rhs => exact compare_ended heap _ _ lhs rhs
  | notEqual lhs rhs => exact compare_ended heap _ _ lhs rhs
  | interval value => exact .completed rfl rfl
  | intervalCombine op lhs rhs =>
    simp only [Heap.call]
    cases op.apply lhs rhs with
    | ok value => exact .completed rfl rfl
    | error trap => exact .trapped rfl trap
  | intervalNegate value => exact .completed rfl rfl
  | intervalEqual lhs rhs => exact .completed rfl rfl
  | intervalNotEqual lhs rhs => exact .completed rfl rfl
  | intervalBy out range step => exact fillCell_ended heap _ out range step
  | statusMessage code => exact .completed rfl rfl
  | startLog => exact .completed rfl rfl

end Calls

end TypedArrays.Boundary
