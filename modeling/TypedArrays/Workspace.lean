import TypedArrays.Container
import TypedArrays.Interval
import TypedArrays.Names

/-! Workspaces of named containers, worked on one command at a time.

A command names its operands and its output. The output may be one of the operands: operands are
read before the output is written. A command that is refused leaves the workspace as it was; one that
traps leaves its output as far as it was written. -/

namespace TypedArrays

/-- Containers under names. -/
abbrev Workspace := Names Container

namespace Workspace

/-! ### Commands and answers -/

/-- How a new container comes about. -/
inductive Recipe where
  | vectorZeroed (kind : Kind) (size : Nat)
  | vectorAllocate (kind : Kind) (size : Int)
  | vectorOfArray (kind : Kind) (data : Array kind.Carrier)
  | vectorOfBools (values : List Bool)
  | matrixZeroed (kind : Kind) (rows columns : Nat)
  | matrixAllocate (kind : Kind) (rows columns : Int)
  | matrixOfArray (kind : Kind) (rows columns : Nat) (data : Array kind.Carrier)
  | stepRange (range : Interval .w32) (step : Word .w32)

/-- One piece of work. Arithmetic without a numeric kind takes the kind of the left operand. -/
inductive Command where
  | make (slot : String) (recipe : Recipe)
  | copy (slot source : String)
  | drop (slot : String)
  | describe (slot : String)
  | read (slot : String) (kind : Kind)
  | write (slot : String) (kind : Kind) (index : Nat) (value : kind.Carrier)
  | get (slot : String) (kind : Kind) (row column : Nat)
  | checkSame (form : Form) (lhs rhs : String)
  | checkKind (slot : String) (kind : Kind)
  | same (lhs rhs : String)
  | arithmetic (form : Form) (at? : Option Numeric) (op : Arithmetic) (out lhs rhs : String)
  | negate (form : Form) (at? : Option Numeric) (out lhs : String)
  | not (out lhs : String)
  | logic (op : Logic) (out lhs rhs : String)
  | logicScalar (op : Logic) (out lhs : String) (rhs : UInt8)
  | equal (lhs rhs : String)
  | notEqual (lhs rhs : String)

/-- What a command yields. -/
inductive Answer where
  | done
  | truth (value : Bool)
  | made (value : Container)
  | described (value : Container)
  | elements (value : Storage)
  | element (kind : Kind) (value : Option kind.Carrier)
  /-- Whether the element to be written exists, and the container afterwards. -/
  | stored (found : Bool) (out : Container)
  /-- The output afterwards, and why the operation did not complete, if it did not. -/
  | written (out : Container) (halt : Option Halt)
  | halted (cause : Halt)
  | missing (name : String)
  /-- The name has a container of the other form. -/
  | wrongForm (name : String)

/-! ### Running commands -/

/-- Looks a name up, or answers that it is missing. -/
def find (ws : Workspace) (name : String) : Except Answer Container :=
  (ws.get? name).elim (.error (.missing name)) .ok

/-- Looks a name up that must have a container of one form. -/
def findForm (ws : Workspace) (form : Form) (name : String) : Except Answer form.Carrier := do
  let c ← ws.find name
  (c.as? form).elim (.error (.wrongForm name)) .ok

def build : Recipe → Except Halt Container
  | .vectorZeroed kind size => ((Vector.zeroed kind size).mapError .trap).map .ofVector
  | .vectorAllocate kind size => (Vector.allocate kind size).map .ofVector
  | .vectorOfArray kind data => .ok (.ofVector (.ofArray kind data))
  | .vectorOfBools values => .ok (.ofVector (.ofBools values))
  | .matrixZeroed kind rows columns => ((Matrix.zeroed kind rows columns).mapError .trap).map .ofMatrix
  | .matrixAllocate kind rows columns => (Matrix.allocate kind rows columns).map .ofMatrix
  | .matrixOfArray kind rows columns data => (Matrix.ofArray kind rows columns data).map .ofMatrix
  | .stepRange range step => (range.stepRange step).map .ofVector

/-- What a command yields and what a name has afterwards, if that changes. -/
abbrev Effect := Except Answer (Answer × Option (String × Option Container))

/-- A command that changes nothing. -/
def look (answer : Answer) : Effect := .ok (answer, none)

/-- A command that stores an output. -/
def store (name : String) (form : Form) (w : Written form.Carrier) : Effect :=
  .ok (.written ⟨form, w.out⟩ w.halt, some (name, some ⟨form, w.out⟩))

/-- Answers a check or a comparison. -/
def verdict {α : Type} (answer : α → Answer) (result : Except Fault α) : Effect :=
  match result with
  | .ok value => look (answer value)
  | .error cause => look (.halted (.fault cause))

def evaluate (ws : Workspace) : Command → Effect
  | .make slot recipe =>
    match build recipe with
    | .ok c => .ok (.made c, some (slot, some c))
    | .error cause => look (.halted cause)
  | .copy slot source => do
    let c ← ws.find source
    return (.made c, some (slot, some c))
  | .drop slot => do
    let _ ← ws.find slot
    return (.done, some (slot, none))
  | .describe slot => do
    look (.described (← ws.find slot))
  | .read slot kind => do
    let c ← ws.find slot
    verdict (fun data => .elements ⟨kind, data⟩) (c.storage.read kind)
  | .write slot kind index value => do
    let c ← ws.find slot
    match c.storage.write kind index value with
    | .ok (some s) => return (.stored true (c.withStorage s), some (slot, some (c.withStorage s)))
    | .ok none => look (.stored false c)
    | .error cause => look (.written c (some (.fault cause)))
  | .get slot kind row column => do
    let m ← ws.findForm .matrix slot
    look (.element kind (Matrix.get? m kind row column))
  | .checkSame form lhs rhs => do
    let l ← ws.findForm form lhs
    let r ← ws.findForm form rhs
    verdict (fun _ => .done) (form.checkSame l r)
  | .checkKind slot kind => do
    let c ← ws.find slot
    verdict (fun _ => .done) (c.storage.checkKind kind)
  | .same lhs rhs => do
    let l ← ws.find lhs
    let r ← ws.find rhs
    let r ← (r.as? l.form).elim (.error (.wrongForm rhs)) .ok
    look (.truth (l.form.same l.value r))
  | .arithmetic form at? op out lhs rhs => do
    let l ← ws.findForm form lhs
    let r ← ws.findForm form rhs
    let o ← ws.findForm form out
    store out form (form.arithmetic at? op o l r)
  | .negate form at? out lhs => do
    let l ← ws.findForm form lhs
    let o ← ws.findForm form out
    store out form (form.negate at? o l)
  | .not out lhs => do
    let l ← ws.findForm .vector lhs
    let o ← ws.findForm .vector out
    store out .vector (Vector.not o l)
  | .logic op out lhs rhs => do
    let l ← ws.findForm .vector lhs
    let r ← ws.findForm .vector rhs
    let o ← ws.findForm .vector out
    store out .vector (Vector.logic op o l r)
  | .logicScalar op out lhs rhs => do
    let l ← ws.findForm .vector lhs
    let o ← ws.findForm .vector out
    store out .vector (Vector.logicScalar op o l rhs)
  | .equal lhs rhs => do
    let l ← ws.findForm .vector lhs
    let r ← ws.findForm .vector rhs
    verdict .truth (Vector.equal l r)
  | .notEqual lhs rhs => do
    let l ← ws.findForm .vector lhs
    let r ← ws.findForm .vector rhs
    verdict .truth (Vector.notEqual l r)

/-- One command: its answer and the workspace after it. -/
def step (ws : Workspace) (command : Command) : Answer × Workspace :=
  match ws.evaluate command with
  | .ok (answer, some (name, value)) => (answer, ws.set name value)
  | .ok (answer, none) => (answer, ws)
  | .error answer => (answer, ws)

/-- The answers to a list of commands and the workspace after them. -/
def run (ws : Workspace) : List Command → List Answer × Workspace
  | [] => ([], ws)
  | command :: rest =>
    let (answer, after) := ws.step command
    let (answers, last) := run after rest
    (answer :: answers, last)

end Workspace

end TypedArrays
