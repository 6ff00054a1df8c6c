import TypedArrays.Boundary.Step
import TypedArrays.Names

/-! Scripts: calls that speak of containers by name.

A script runs its calls in order. A call that names nothing, or a container of the wrong form, is
skipped and answered as such. The first abort ends the script. -/

namespace TypedArrays.Boundary

/-- A handle together with its form. -/
structure AnyHandle where
  form : Form
  handle : Handle form

/-- The handle as one of a given form. -/
def AnyHandle.as? (h : AnyHandle) (f : Form) : Option (Handle f) :=
  if eq : h.form = f then some (eq ▸ h.handle) else none

/-- A call that speaks of names; `none` is the null pointer. -/
abbrev NamedCall := Call (fun _ => Option String) (Option String)

namespace Script

/-- A call, and the name that a container made by it gets. -/
structure Statement where
  call : NamedCall
  slot : Option String

/-- Why a call was not made. -/
inductive Refusal where
  | missing (name : String)
  | wrongForm (name : String)
deriving DecidableEq

/-- What the answer to a call shows; containers show their contents. -/
inductive Shown where
  | nothing
  | number (n : Int)
  | truth (b : Bool)
  | text (s : String)
  | interval (value : Interval .w32)
  | elements (value : Storage)
  | container (value : Container)
  | cell (status : Status) (content : Option Vector)

/-- The answer to a call. -/
inductive Answer where
  | refused (why : Refusal)
  | completed (shown : Shown) (events : List Event)
  | aborted (cause : Abort) (events : List Event)

/-- The events that an answer carries. -/
def Answer.events : Answer → List Event
  | .refused _ => []
  | .completed _ events => events
  | .aborted _ events => events

/-- The live containers and their names. -/
structure State where
  heap : Heap
  names : Names AnyHandle

namespace State

def initial : State := ⟨.empty, .empty⟩

/-! ### From names to handles -/

/-- The handle under a name; null stays null. -/
def pointer (s : State) (f : Form) : Option String → Except Refusal (Pointer f)
  | none => .ok none
  | some name =>
    match s.names.get? name with
    | none => .error (.missing name)
    | some h => (h.as? f).elim (.error (.wrongForm name)) (.ok ∘ some)

/-- The cell under a name; a name without a handle is a cell that holds null. -/
def cell (s : State) : Option String → Except Refusal OutCell
  | none => .ok none
  | some name =>
    match s.names.get? name with
    | none => .ok (some none)
    | some h => (h.as? .vector).elim (.error (.wrongForm name)) (.ok ∘ some ∘ some)

/-- Looks all names of a call up, in the order of its arguments. -/
def resolve (s : State) : NamedCall → Except Refusal HandleCall
  | .newVector tag size => return .newVector tag size
  | .newMatrix tag rows columns => return .newMatrix tag rows columns
  | .free form target => return .free form (← s.pointer form target)
  | .size target => return .size (← s.pointer .vector target)
  | .rows target => return .rows (← s.pointer .matrix target)
  | .columns target => return .columns (← s.pointer .matrix target)
  | .kind form target => return .kind form (← s.pointer form target)
  | .data form target stored => return .data form (← s.pointer form target) stored
  | .checkSame form lhs rhs => return .checkSame form (← s.pointer form lhs) (← s.pointer form rhs)
  | .arithmetic form op out lhs rhs =>
    return .arithmetic form op (← s.pointer form out) (← s.pointer form lhs) (← s.pointer form rhs)
  | .negate form out lhs => return .negate form (← s.pointer form out) (← s.pointer form lhs)
  | .not out lhs => return .not (← s.pointer .vector out) (← s.pointer .vector lhs)
  | .logic op out lhs rhs =>
    return .logic op (← s.pointer .vector out) (← s.pointer .vector lhs) (← s.pointer .vector rhs)
  | .logicScalar op out lhs rhs =>
    return .logicScalar op (← s.pointer .vector out) (← s.pointer .vector lhs) rhs
  | .equal lhs rhs => return .equal (← s.pointer .vector lhs) (← s.pointer .vector rhs)
  | .notEqual lhs rhs => return .notEqual (← s.pointer .vector lhs) (← s.pointer .vector rhs)
  | .interval value => return .interval value
  | .intervalCombine op lhs rhs => return .intervalCombine op lhs rhs
  | .intervalNegate value => return .intervalNegate value
  | .intervalEqual lhs rhs => return .intervalEqual lhs rhs
  | .intervalNotEqual lhs rhs => return .intervalNotEqual lhs rhs
  | .intervalBy out range step => return .intervalBy (← s.cell out) range step
  | .statusMessage code => return .statusMessage code
  | .startLog => return .startLog

/-! ### Running a script -/

/-- The names after a completed call: a new container gets its name, a released one loses it. -/
def rename (names : Names AnyHandle) (statement : Statement) (value : Value) : Names AnyHandle :=
  match statement.call, value with
  | .newVector _ _, .handle form h | .newMatrix _ _ _, .handle form h =>
    statement.slot.elim names fun name => names.set name (some ⟨form, h⟩)
  | .free _ (some name), _ => names.set name none
  | .intervalBy (some name) _ _, .cell _ content => names.set name (content.map (⟨.vector, ·⟩))
  | _, _ => names

/-- What the answer to a completed call shows, read from the heap afterwards. -/
def display (heap : Heap) : Value → Shown
  | .nothing => .nothing
  | .number n => .number n
  | .truth b => .truth b
  | .text t => .text t
  | .interval value => .interval value
  | .elements value => .elements value
  | .handle form h => (heap.get? h).elim .nothing fun value => .container ⟨form, value⟩
  | .cell status content => .cell status (content.bind heap.get?)

/-- One statement: its answer and the state after it, if the program goes on. -/
def step (s : State) (statement : Statement) : Answer × Option State :=
  match s.resolve statement.call with
  | .error why => (.refused why, some s)
  | .ok call =>
    let reaction := s.heap.call call
    match reaction.result with
    | .error cause => (.aborted cause reaction.events, none)
    | .ok (value, heap) =>
      (.completed (display heap value) reaction.events, some ⟨heap, rename s.names statement value⟩)

/-- The answers up to the first abort, and whether there was one. -/
def run (s : State) : List Statement → List Answer × Bool
  | [] => ([], false)
  | statement :: rest =>
    match s.step statement with
    | (answer, none) => ([answer], true)
    | (answer, some after) =>
      let (answers, aborted) := run after rest
      (answer :: answers, aborted)

end State

end Script

end TypedArrays.Boundary
