import TypedArrays.Boundary.Call

/-! What a call does to the heap.

Pointers are checked for null before any operand is looked at, the output first. An output may also be
an operand: it is copied then, since a container that is being written can not be read in its place.
Faults of the operation itself end the program after one error event; a failed size check and a rejected
step are reported to the caller as a status instead. -/

namespace TypedArrays.Boundary

/-- A pointer to a container of a form; `none` is null. -/
abbrev Pointer (f : Form) := Option (Handle f)

/-- A place that holds a pointer to a vector; `none` if the place itself is null. -/
abbrev OutCell := Option (Pointer .vector)

/-- A call that speaks of handles. -/
abbrev HandleCall := Call Pointer OutCell

namespace Reaction

/-- An end without events. -/
def silent (result : Except Abort (Value × Heap)) : Reaction := ⟨[], result⟩

/-- Goes on unless the call is already aborted. -/
def guarded {α : Type} (checked : Except Abort α) (goOn : α → Reaction) : Reaction :=
  match checked with
  | .ok value => goOn value
  | .error cause => silent (.error cause)

/-- Ends the program because of a fault, with an error event. -/
def invalid (entry : String) (cause : Fault) : Reaction :=
  ⟨[.invalidOperands entry cause], .error (.invalidOperands entry cause)⟩

/-- Ends the program because of a fault or a trap. -/
def halted (entry : String) : Halt → Reaction
  | .fault cause => invalid entry cause
  | .trap cause => silent (.error (.trap cause))

end Reaction

/-- Refuses a null pointer. -/
def nonNull (entry : String) (role : Role) {α : Type} (p : Option α) : Except Abort α :=
  p.elim (.error (.nullPointer entry role)) .ok

namespace Heap

/-- The container behind a handle that callers promise to be live. -/
def deref (heap : Heap) (entry : String) {f : Form} (h : Handle f) : Except Abort f.Carrier :=
  (heap.get? h).elim (.error (.dangling entry)) .ok

/-- Looks at the container behind a pointer. -/
def inspect (heap : Heap) (entry : String) {f : Form} (p : Pointer f) (value : f.Carrier → Value) : Reaction :=
  .silent do
    let h ← nonNull entry .operand p
    return (value (← heap.deref entry h), heap)

/-- Reads the two operands of a comparison, which must not be null. -/
def operands (heap : Heap) (entry : String) {f : Form} (lhs rhs : Pointer f) : Except Abort (f.Carrier × f.Carrier) := do
  let lhs ← nonNull entry .operand lhs
  let rhs ← nonNull entry .operand rhs
  return (← heap.deref entry lhs, ← heap.deref entry rhs)

/-- An operand of a call with an output. -/
inductive Operand (f : Form) where
  | copied (value : f.Carrier)
  /-- To be read in its place. -/
  | borrowed (h : Handle f)

/-- Copies an operand that is the output. -/
def operand (heap : Heap) (entry : String) {f : Form} (out h : Handle f) : Except Abort (Operand f) :=
  if h = out then (heap.deref entry h).map .copied else .ok (.borrowed h)

def readOperand (heap : Heap) (entry : String) {f : Form} : Operand f → Except Abort f.Carrier
  | .copied value => .ok value
  | .borrowed h => heap.deref entry h

/-- Stores what an operation wrote, unless it did not complete. -/
def complete (heap : Heap) (entry : String) {f : Form} (out : Handle f) (w : Written f.Carrier) : Reaction :=
  match w.halt with
  | some cause => .halted entry cause
  | none => .silent (.ok (.handle f out, heap.set out w.out))

/-- Runs an operation with two operands. -/
def binary (heap : Heap) (entry : String) {f : Form} (run : (out lhs rhs : f.Carrier) → Written f.Carrier)
    (out lhs rhs : Pointer f) : Reaction :=
  let checked : Except Abort (Handle f × Written f.Carrier) := do
    let out ← nonNull entry .output out
    let lhs ← nonNull entry .lhs lhs
    let rhs ← nonNull entry .rhs rhs
    let lhs ← heap.operand entry out lhs
    let rhs ← heap.operand entry out rhs
    -- The output belongs to the operation until it ends: no operand is found in its place.
    let others := heap.erase out
    return (out, run (← heap.deref entry out) (← others.readOperand entry lhs) (← others.readOperand entry rhs))
  .guarded checked fun (out, w) => heap.complete entry out w

/-- Runs an operation with one operand. -/
def unary (heap : Heap) (entry : String) {f : Form} (run : (out lhs : f.Carrier) → Written f.Carrier)
    (out lhs : Pointer f) : Reaction :=
  let checked : Except Abort (Handle f × Written f.Carrier) := do
    let out ← nonNull entry .output out
    let lhs ← nonNull entry .lhs lhs
    let lhs ← heap.operand entry out lhs
    let others := heap.erase out
    return (out, run (← heap.deref entry out) (← others.readOperand entry lhs))
  .guarded checked fun (out, w) => heap.complete entry out w

/-- Makes a container of the kind with a tag, which is looked up first. -/
def allocate (heap : Heap) (entry : String) {f : Form} (tag : Int) (make : Kind → Except Halt f.Carrier)
    (event : Kind → Event) : Reaction :=
  match Kind.ofTag? tag with
  | none => .invalid entry (.unknownKind tag)
  | some kind =>
    match make kind with
    | .error cause => .halted entry cause
    | .ok value => ⟨[event kind], .ok (.handle f (heap.fresh f), heap.insert value)⟩

/-- Releases a container; releasing null does nothing. -/
def free (heap : Heap) (entry : String) {f : Form} : Pointer f → Reaction
  | none => .silent (.ok (.nothing, heap))
  | some h => .guarded (heap.deref entry h) fun _ => ⟨[.freeing f], .ok (.nothing, heap.erase h)⟩

/-- Stores bit patterns into a container and reads its elements. -/
def exchange (heap : Heap) (entry : String) {f : Form} (p : Pointer f) (stored : List Int) : Reaction :=
  .silent do
    let h ← nonNull entry .operand p
    let value ← heap.deref entry h
    let storage := (f.storage value).overwrite stored
    return (.elements storage, heap.set h (f.withStorage value storage))

/-- Compares sizes or shapes and reports a status. -/
def check (heap : Heap) (entry : String) {f : Form} (lhs rhs : Pointer f) : Reaction :=
  .guarded (heap.operands entry lhs rhs) fun (l, r) =>
    match f.checkSame l r with
    | .ok () => .silent (.ok (.number Status.ok.code, heap))
    | .error cause => ⟨[.checkFailed cause], .ok (.number cause.status.code, heap)⟩

/-- Compares two boolean vectors. -/
def compare (heap : Heap) (entry : String) (run : Vector → Vector → Except Fault Bool) (lhs rhs : Pointer .vector) :
    Reaction :=
  .guarded (heap.operands entry lhs rhs) fun (l, r) =>
    match run l r with
    | .ok answer => .silent (.ok (.truth answer, heap))
    | .error cause => .invalid entry cause

/-- Puts the stepped words of an interval into a cell as a new vector, or leaves the cell alone. -/
def fillCell (heap : Heap) (entry : String) (out : OutCell) (range : Interval .w32) (step : Word .w32) : Reaction :=
  .guarded (nonNull entry .output out) fun content =>
    match range.stepRange step with
    | .ok vector =>
      ⟨[.materialized range step vector.size],
        .ok (.cell .ok (some (heap.fresh .vector)), heap.insert (f := .vector) vector)⟩
    | .error (.fault cause) => ⟨[.rejected range step cause], .ok (.cell cause.status content, heap)⟩
    | .error (.trap cause) => .silent (.error (.trap cause))

/-- What a call does. -/
def call (heap : Heap) (c : HandleCall) : Reaction :=
  match c with
  | .newVector tag size =>
    heap.allocate c.entry (f := .vector) tag (Vector.allocate · size) (.allocatedVector · size)
  | .newMatrix tag rows columns =>
    heap.allocate c.entry (f := .matrix) tag (Matrix.allocate · rows columns) (.allocatedMatrix · rows columns)
  | .free _ target => heap.free c.entry target
  | .size target => heap.inspect c.entry target fun v => .number (Vector.size v)
  | .rows target => heap.inspect c.entry target fun m => .number (Matrix.rows m)
  | .columns target => heap.inspect c.entry target fun m => .number (Matrix.columns m)
  | .kind form target => heap.inspect c.entry target fun value => .number (form.kind value).tag
  | .data _ target stored => heap.exchange c.entry target stored
  | .checkSame _ lhs rhs => heap.check c.entry lhs rhs
  | .arithmetic form op out lhs rhs => heap.binary c.entry (form.arithmetic none op) out lhs rhs
  | .negate form out lhs => heap.unary c.entry (form.negate none) out lhs
  | .not out lhs => heap.unary c.entry (f := .vector) Vector.not out lhs
  | .logic op out lhs rhs => heap.binary c.entry (f := .vector) (Vector.logic op) out lhs rhs
  | .logicScalar op out lhs rhs =>
    heap.unary c.entry (f := .vector) (fun o l => Vector.logicScalar op o l rhs) out lhs
  | .equal lhs rhs => heap.compare c.entry Vector.equal lhs rhs
  | .notEqual lhs rhs => heap.compare c.entry Vector.notEqual lhs rhs
  | .interval value => .silent (.ok (.interval value, heap))
  | .intervalCombine op lhs rhs => .silent <|
    match op.apply lhs rhs with
    | .ok value => .ok (.interval value, heap)
    | .error cause => .error (.trap cause)
  | .intervalNegate value => .silent (.ok (.interval (-value), heap))
  | .intervalEqual lhs rhs => .silent (.ok (.truth (lhs == rhs), heap))
  | .intervalNotEqual lhs rhs => .silent (.ok (.truth (lhs != rhs), heap))
  | .intervalBy out range step => heap.fillCell c.entry out range step
  | .statusMessage code => .silent (.ok (.text (Status.messageOf code), heap))
  | .startLog => .silent (.ok (.nothing, heap))

end Heap

end TypedArrays.Boundary
