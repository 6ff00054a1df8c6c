import Mathlib.Logic.Function.Basic
import TypedArrays.Proofs.Boundary.Heap

/-! Runs of elementwise calls as scalar programs, one for each lane.

Take containers that agree in kind and shape. A list of elementwise calls on them is, for every lane, a
program on registers: a register for every handle, and for every call one scalar operation. The calls
complete exactly if no lane traps, and then every lane of every container is what its register holds.
Outputs may be operands of the same call, and handles may be used again at will. -/

namespace TypedArrays.Boundary

/-! ### Calls that work lane by lane -/

/-- Calls that can follow each other on the same containers: arithmetic at a numeric kind on containers
    of one form, and logic on boolean vectors. -/
inductive Family where
  | arithmetic (form : Form) (n : Numeric)
  | logic

namespace Family

@[reducible] def form : Family → Form
  | arithmetic form _ => form
  | logic => .vector

@[reducible] def kind : Family → Kind
  | arithmetic _ n => n.kind
  | logic => .boolean

end Family

/-- One call of a family, on handles. -/
inductive Instruction : Family → Type where
  | arithmetic {f : Form} {n : Numeric} (op : Arithmetic) (out lhs rhs : Handle f) : Instruction (.arithmetic f n)
  | negate {f : Form} {n : Numeric} (out lhs : Handle f) : Instruction (.arithmetic f n)
  | not (out lhs : Handle .vector) : Instruction .logic
  | logic (op : Logic) (out lhs rhs : Handle .vector) : Instruction .logic
  | logicScalar (op : Logic) (out lhs : Handle .vector) (rhs : UInt8) : Instruction .logic

/-- What one lane holds for every handle. -/
abbrev Registers (F : Family) := Handle F.form → F.kind.Carrier

namespace Instruction
variable {F : Family}

def call : Instruction F → HandleCall
  | @arithmetic f _ op out lhs rhs => .arithmetic f op (some out) (some lhs) (some rhs)
  | @negate f _ out lhs => .negate f (some out) (some lhs)
  | not out lhs => .not (some out) (some lhs)
  | logic op out lhs rhs => .logic op (some out) (some lhs) (some rhs)
  | logicScalar op out lhs rhs => .logicScalar op (some out) (some lhs) rhs

def out : Instruction F → Handle F.form
  | arithmetic _ out _ _ => out
  | negate out _ => out
  | not out _ => out
  | logic _ out _ _ => out
  | logicScalar _ out _ _ => out

/-- All handles of a call. -/
def handles : Instruction F → List (Handle F.form)
  | arithmetic _ out lhs rhs => [out, lhs, rhs]
  | negate out lhs => [out, lhs]
  | not out lhs => [out, lhs]
  | logic _ out lhs rhs => [out, lhs, rhs]
  | logicScalar _ out lhs _ => [out, lhs]

/-- The scalar operation of a call. -/
def eval (registers : Registers F) : Instruction F → Except Trap F.kind.Carrier
  | @arithmetic _ n op _ lhs rhs => n.apply op (registers lhs) (registers rhs)
  | @negate _ n _ lhs => .ok (n.negate (registers lhs))
  | not _ lhs => .ok (Logic.negate (registers lhs))
  | logic op _ lhs rhs => .ok (op.apply (registers lhs) (registers rhs))
  | logicScalar op _ lhs rhs => .ok (op.apply (registers lhs) rhs)

/-- The registers after a scalar program, or the position of the operation that trapped and why. -/
def runLane (registers : Registers F) : List (Instruction F) → Except (Nat × Trap) (Registers F)
  | [] => .ok registers
  | ins :: rest =>
    match ins.eval registers with
    | .ok value =>
      (runLane (Function.update registers ins.out value) rest).mapError fun (position, trap) => (position + 1, trap)
    | .error trap => .error (0, trap)

theorem runLane_cons_ok {registers : Registers F} {ins : Instruction F} {value : F.kind.Carrier}
    (h : ins.eval registers = .ok value) (rest : List (Instruction F)) :
    runLane registers (ins :: rest) =
      (runLane (Function.update registers ins.out value) rest).mapError
        fun (position, trap) => (position + 1, trap) := by
  rw [runLane, h]

theorem runLane_cons_error {registers : Registers F} {ins : Instruction F} {trap : Trap}
    (h : ins.eval registers = .error trap) (rest : List (Instruction F)) :
    runLane registers (ins :: rest) = .error (0, trap) := by
  rw [runLane, h]

end Instruction

/-! ### Containers lane by lane -/

namespace Heap

/-- The element in a lane of the container behind a handle, if there is one and it is of a kind. -/
def element? (heap : Heap) {f : Form} (kind : Kind) (p : Handle f) (i : Nat) : Option kind.Carrier := do
  let c ← heap.get? p
  let data ← ((f.storage c).read kind).toOption
  data[i]?

/-- The registers of a lane; handles without such a lane count as zero. -/
def lane (heap : Heap) {f : Form} (kind : Kind) (i : Nat) (p : Handle f) : kind.Carrier :=
  (heap.element? kind p i).getD kind.zero

/-- All handles are live, and their containers agree in kind and shape. -/
def Uniform (heap : Heap) {f : Form} (handles : List (Handle f)) (kind : Kind) (shape : f.Shape) : Prop :=
  ∀ p ∈ handles, ∃ c, heap.get? p = some c ∧ f.kind c = kind ∧ f.shape c = shape

/-- The containers behind the handles agree in kind and shape and have `n` lanes each, and every lane
    holds what its registers say. -/
def Tracks (heap : Heap) {f : Form} (handles : List (Handle f)) (kind : Kind) (shape : f.Shape) (n : Nat)
    (registers : Nat → Handle f → kind.Carrier) : Prop :=
  ∀ p ∈ handles, ∃ c data, heap.get? p = some c ∧ f.shape c = shape ∧ f.storage c = ⟨kind, data⟩ ∧
    data.size = n ∧ ∀ i < n, data[i]? = some (registers i p)

/-- How a call that computes `lane i` on every lane may end: some lane traps and the program ends with
    its trap, or every lane of the output takes what it computed. -/
def Stepped {f : Form} (handles : List (Handle f)) (kind : Kind) (shape : f.Shape) (n : Nat)
    (registers : Nat → Handle f → kind.Carrier) (out : Handle f) (lane : Nat → Except Trap kind.Carrier)
    (result : Except Abort (Value × Heap)) : Prop :=
  (∃ i < n, ∃ trap, lane i = .error trap ∧ result = .error (.trap trap)) ∨
  ∃ (values : Nat → kind.Carrier) (value : Value) (after : Heap), (∀ i < n, lane i = .ok (values i)) ∧
    result = .ok (value, after) ∧
      Tracks after handles kind shape n fun i => Function.update (registers i) out (values i)

section Lanes
variable {heap : Heap} {f : Form} {handles : List (Handle f)} {kind : Kind} {shape : f.Shape} {n : Nat}
  {registers : Nat → Handle f → kind.Carrier}

theorem element?_of_storage {p : Handle f} {c : f.Carrier} {data : Array kind.Carrier} (hp : heap.get? p = some c)
    (hc : f.storage c = ⟨kind, data⟩) (i : Nat) : heap.element? kind p i = data[i]? := by
  simp only [element?, hp, Option.bind_eq_bind, Option.bind_some, hc, Storage.read_mk, Except.toOption]

theorem Tracks.element? (h : Tracks heap handles kind shape n registers) {p : Handle f} (hp : p ∈ handles) {i : Nat}
    (hi : i < n) : heap.element? kind p i = some (registers i p) := by
  obtain ⟨c, data, hc, -, hdata, -, hlane⟩ := h p hp
  rw [element?_of_storage hc hdata]
  exact hlane i hi

theorem Tracks.uniform (h : Tracks heap handles kind shape n registers) : Uniform heap handles kind shape := by
  intro p hp
  obtain ⟨c, data, hc, hshape, hdata, -, -⟩ := h p hp
  exact ⟨c, hc, by rw [Form.kind, hdata], hshape⟩

theorem Uniform.tracks (hw : heap.WellFormed) (h : Uniform heap handles kind shape) :
    Tracks heap handles kind shape (f.lanes shape) (heap.lane kind) := by
  intro p hp
  obtain ⟨c, hc, hkind, hshape⟩ := h p hp
  obtain ⟨data, hdata, hsize⟩ := Storage.eq_mk hkind
  have hn : data.size = f.lanes shape := by rw [hsize, (hw hc).size, hshape]
  refine ⟨c, data, hc, hshape, hdata, hn, fun i hi => ?_⟩
  rw [lane, element?_of_storage hc hdata, Array.getElem?_eq_getElem (hn ▸ hi), Option.getD_some]

/-- Storing a container that keeps the shape and whose lanes are given keeps the others tracked. -/
theorem Tracks.set (h : Tracks heap handles kind shape n registers) {out : Handle f} (hout : out ∈ handles)
    {c : f.Carrier} {data : Array kind.Carrier} (hshape : f.shape c = shape) (hdata : f.storage c = ⟨kind, data⟩)
    (hn : data.size = n) {values : Nat → kind.Carrier} (hv : ∀ i < n, data[i]? = some (values i)) :
    Tracks (heap.set out c) handles kind shape n fun i => Function.update (registers i) out (values i) := by
  intro p hp
  by_cases hpo : p = out
  · subst hpo
    obtain ⟨old, _, hold, -⟩ := h p hp
    refine ⟨c, data, get?_set_self hold c, hshape, hdata, hn, fun i hi => ?_⟩
    simp only [Function.update_self]
    exact hv i hi
  · obtain ⟨d, data', hd, hd'⟩ := h p hp
    refine ⟨d, data', (get?_set_ne hpo c).trans hd, ?_⟩
    simpa only [Function.update_of_ne hpo] using hd'

/-- Storing what a loop left behind. -/
theorem Tracks.complete (h : Tracks heap handles kind shape n registers) {out : Handle f} (hout : out ∈ handles)
    {o : f.Carrier} {data : Array kind.Carrier} (hshape : f.shape o = shape) (hdata : f.storage o = ⟨kind, data⟩)
    (hn : data.size = n) {lane : Nat → Except Trap kind.Carrier} {sweep : Sweep kind.Carrier} {k : Nat}
    (hk : Kernel.Swept lane 0 data.size data sweep k) (entry : String) :
    Stepped handles kind shape n registers out lane
      (heap.complete entry out ((Storage.ofSweep kind sweep).map (f.withStorage o))).result := by
  subst hn
  cases ht : sweep.trap with
  | some trap =>
    obtain ⟨-, hkn, hlane, -⟩ := hk.trapped ht
    refine Or.inl ⟨k, hkn, trap, hlane, ?_⟩
    simp only [Heap.complete, Written.map, Storage.ofSweep, ht, Option.map_some, Reaction.halted, Reaction.silent]
  | none =>
    have hsize : sweep.out.size = data.size := hk.size
    have hall : ∀ i < data.size, lane i = .ok (sweep.out.getD i kind.zero) ∧
        sweep.out[i]? = some (sweep.out.getD i kind.zero) := fun i hi => by
      obtain ⟨value, hlane, hout⟩ := hk.all_written ht i (Nat.zero_le i) hi
      rw [Array.getD_eq_getD_getElem?, hout, Option.getD_some]
      exact ⟨hlane, rfl⟩
    have halike : f.Alike (f.withStorage o ⟨kind, sweep.out⟩) o :=
      Form.withStorage_alike ⟨by rw [hdata], by rw [hdata]; exact hsize⟩
    refine Or.inr ⟨fun i => sweep.out.getD i kind.zero, .handle f out,
      heap.set out (f.withStorage o ⟨kind, sweep.out⟩), fun i hi => (hall i hi).1, ?_, ?_⟩
    · simp only [Heap.complete, Written.map, Storage.ofSweep, ht, Option.map_none, Reaction.silent]
    · exact h.set hout (halike.shape.trans hshape) (Form.storage_withStorage _ _) hsize fun i hi => (hall i hi).2

/-- A two-operand call whose operation is, on containers of one kind and shape, a loop over them. -/
theorem Tracks.binary (h : Tracks heap handles kind shape n registers) {out lhs rhs : Handle f}
    (ho : out ∈ handles) (hl : lhs ∈ handles) (hr : rhs ∈ handles) (entry : String)
    (op : kind.Carrier → kind.Carrier → Except Trap kind.Carrier) (run : (out lhs rhs : f.Carrier) → Written f.Carrier)
    (hrun : ∀ o l r, f.kind l = kind → run o l r = f.binaryWith (Storage.combine kind op) o l r) :
    Stepped handles kind shape n registers out (fun i => op (registers i lhs) (registers i rhs))
      (heap.binary entry run (some out) (some lhs) (some rhs)).result := by
  obtain ⟨o, odata, hog, hos, hod, hon, -⟩ := h out ho
  obtain ⟨l, ldata, hlg, hls, hld, hln, hlanes⟩ := h lhs hl
  obtain ⟨r, rdata, hrg, hrs, hrd, hrn, hranes⟩ := h rhs hr
  have hw : run o l r = (Storage.ofSweep kind (Kernel.binary op odata ldata rdata)).map (f.withStorage o) := by
    rw [hrun o l r (by rw [Form.kind, hld]), Form.binaryWith_of_shape (hls.trans hrs.symm) (hls.trans hos.symm),
      hod, hld, hrd, Storage.combine_mk]
  obtain ⟨k, hk⟩ := Kernel.binary_swept (fun i => op (registers i lhs) (registers i rhs)) op
    (hln.trans hon.symm) (hrn.trans hon.symm) fun i a b ha hb => by
      have hi : i < n := hln ▸ (Array.getElem?_eq_some_iff.mp ha).1
      rw [hlanes i hi] at ha
      rw [hranes i hi] at hb
      cases ha
      cases hb
      rfl
  rw [binary_of_live hog hlg hrg, hw]
  exact h.complete ho hos hod hon hk entry

theorem Tracks.unary (h : Tracks heap handles kind shape n registers) {out lhs : Handle f}
    (ho : out ∈ handles) (hl : lhs ∈ handles) (entry : String) (loop : UnaryLoop) (op : kind.Carrier → kind.Carrier)
    (run : (out lhs : f.Carrier) → Written f.Carrier)
    (hrun : ∀ o l, f.kind l = kind → run o l = f.unaryWith (Storage.transform kind loop op) o l) :
    Stepped handles kind shape n registers out (fun i => .ok (op (registers i lhs)))
      (heap.unary entry run (some out) (some lhs)).result := by
  obtain ⟨o, odata, hog, hos, hod, hon, -⟩ := h out ho
  obtain ⟨l, ldata, hlg, hls, hld, hln, hlanes⟩ := h lhs hl
  have hw : run o l = (Storage.ofSweep kind (Kernel.unary loop op odata ldata)).map (f.withStorage o) := by
    rw [hrun o l (by rw [Form.kind, hld]), Form.unaryWith_of_shape (hls.trans hos.symm), hod, hld, Storage.transform_mk]
  obtain ⟨k, hk⟩ := Kernel.unary_swept (fun i => .ok (op (registers i lhs))) loop op
    (hon.trans hln.symm) fun i a ha => by
      have hi : i < n := hln ▸ (Array.getElem?_eq_some_iff.mp ha).1
      rw [hlanes i hi] at ha
      cases ha
      rfl
  rw [unary_of_live hog hlg, hw]
  exact h.complete ho hos hod hon hk entry

end Lanes

/-! ### Steps and runs -/

section Runs
variable {F : Family} {heap : Heap} {handles : List (Handle F.form)} {shape : F.form.Shape} {n : Nat}
  {registers : Nat → Registers F}

/-- One call does on every lane what its scalar operation does. -/
theorem Tracks.step (h : Tracks heap handles F.kind shape n registers) (ins : Instruction F)
    (hin : ∀ p ∈ ins.handles, p ∈ handles) :
    Stepped handles F.kind shape n registers ins.out (fun i => ins.eval (registers i)) (heap.call ins.call).result := by
  cases ins with
  | @arithmetic f k op out lhs rhs =>
    simp only [Instruction.handles, List.forall_mem_cons] at hin
    refine h.binary hin.1 hin.2.1 hin.2.2.1 _ (k.apply op) (f.arithmetic none op) fun o l r hl => ?_
    rw [Form.arithmetic_of_kind hl, Form.arithmetic_some]
  | @negate f k out lhs =>
    simp only [Instruction.handles, List.forall_mem_cons] at hin
    refine h.unary hin.1 hin.2.1 _ .negate k.negate (f.negate none) fun o l hl => ?_
    rw [Form.negate_of_kind hl, Form.negate_some]
    rfl
  | not out lhs =>
    simp only [Instruction.handles, List.forall_mem_cons] at hin
    exact h.unary hin.1 hin.2.1 _ .not Logic.negate Vector.not fun o l _ => rfl
  | logic op out lhs rhs =>
    simp only [Instruction.handles, List.forall_mem_cons] at hin
    exact h.binary hin.1 hin.2.1 hin.2.2.1 _ (fun a b => .ok (op.apply a b)) (Vector.logic op)
      fun o l r _ => rfl
  | logicScalar op out lhs rhs =>
    simp only [Instruction.handles, List.forall_mem_cons] at hin
    exact h.unary hin.1 hin.2.1 _ .scalar (fun a => op.apply a rhs)
      (fun o l => Vector.logicScalar op o l rhs) fun o l _ => rfl

/-- A list of calls does on every lane what its scalar program does, up to the first trap on any lane. -/
theorem Tracks.run (h : Tracks heap handles F.kind shape n registers) (program : List (Instruction F))
    (hin : ∀ ins ∈ program, ∀ p ∈ ins.handles, p ∈ handles) :
    (∃ after last, heap.run (program.map Instruction.call) = .ok after ∧
      (∀ i < n, Instruction.runLane (registers i) program = .ok (last i)) ∧
      Tracks after handles F.kind shape n last) ∨
    ∃ position trap, heap.run (program.map Instruction.call) = .error (position, .trap trap) ∧
      (∃ i < n, Instruction.runLane (registers i) program = .error (position, trap)) ∧
      ∀ i < n, ∀ position' trap', Instruction.runLane (registers i) program = .error (position', trap') →
        position ≤ position' := by
  induction program generalizing heap registers with
  | nil => exact Or.inl ⟨heap, registers, rfl, fun _ _ => rfl, h⟩
  | cons ins rest ih =>
    rw [List.map_cons, Heap.run]
    obtain ⟨i, hi, trap, hlane, hcall⟩ | ⟨values, value, after, hlane, hcall, ht⟩ :=
      h.step ins (hin ins List.mem_cons_self)
    · -- The first call already ends the program.
      rw [hcall]
      refine Or.inr ⟨0, trap, rfl, ⟨i, hi, Instruction.runLane_cons_error hlane rest⟩, fun _ _ _ _ _ => Nat.zero_le _⟩
    · -- Every lane goes on with the rest of its program, one position later.
      rw [hcall]
      have hstep : ∀ i < n, Instruction.runLane (registers i) (ins :: rest) = _ := fun i hi =>
        Instruction.runLane_cons_ok (hlane i hi) rest
      obtain ⟨last, lastRegisters, hrun, hlanes, htracks⟩ | ⟨position, trap, hrun, ⟨i, hi, htrap⟩, hfirst⟩ :=
        ih ht fun ins' hins => hin ins' (List.mem_cons_of_mem _ hins)
      · refine Or.inl ⟨last, lastRegisters, by simp only [hrun]; rfl, fun i hi => ?_, htracks⟩
        rw [hstep i hi, hlanes i hi]
        rfl
      · refine Or.inr ⟨position + 1, trap, by simp only [hrun]; rfl, ⟨i, hi, ?_⟩, fun j hj position' trap' hj' => ?_⟩
        · rw [hstep i hi, htrap]
          rfl
        · rw [hstep j hj] at hj'
          cases hlane' : Instruction.runLane (Function.update (registers j) ins.out (values j)) rest with
          | ok _ =>
            rw [hlane'] at hj'
            cases hj'
          | error e =>
            rw [hlane'] at hj'
            cases hj'
            exact Nat.succ_le_succ (hfirst j hj e.1 e.2 hlane')

/-- Take live containers of one kind and shape behind some handles, and any list of elementwise calls on
    these handles. The calls complete exactly if no lane's scalar program traps; then every lane of every
    container is what its register holds in the end. Otherwise the first call at which some lane traps
    ends the program, with the trap of such a lane. -/
theorem run_simulates_lanes (reached : heap.Reachable) (uniform : Uniform heap handles F.kind shape)
    (program : List (Instruction F)) (within : ∀ ins ∈ program, ∀ p ∈ ins.handles, p ∈ handles) :
    ((∃ after, heap.run (program.map Instruction.call) = .ok after) ↔
      ∀ i < F.form.lanes shape, ∃ last, Instruction.runLane (heap.lane F.kind i) program = .ok last) ∧
    (∀ after, heap.run (program.map Instruction.call) = .ok after →
      Uniform after handles F.kind shape ∧
      ∀ i < F.form.lanes shape, ∀ last, Instruction.runLane (heap.lane F.kind i) program = .ok last →
        ∀ p ∈ handles, after.element? F.kind p i = some (last p)) ∧
    ∀ position cause, heap.run (program.map Instruction.call) = .error (position, cause) →
      (∃ i < F.form.lanes shape, ∃ trap, cause = .trap trap ∧
        Instruction.runLane (heap.lane F.kind i) program = .error (position, trap)) ∧
      ∀ i < F.form.lanes shape, ∀ position' trap,
        Instruction.runLane (heap.lane F.kind i) program = .error (position', trap) → position ≤ position' := by
  have htracks := uniform.tracks reached.wellFormed
  obtain ⟨after, last, hrun, hlanes, hafter⟩ | ⟨position, trap, hrun, ⟨i, hi, htrap⟩, hfirst⟩ :=
    htracks.run program within
  · rw [hrun]
    refine ⟨⟨fun _ i hi => ⟨last i, hlanes i hi⟩, fun _ => ⟨after, rfl⟩⟩, fun after' heq => ?_, fun _ _ heq => ?_⟩
    · cases heq
      refine ⟨hafter.uniform, fun i hi last' hlast p hp => ?_⟩
      rw [hlanes i hi] at hlast
      cases hlast
      exact hafter.element? hp hi
    · cases heq
  · rw [hrun]
    refine ⟨⟨fun ⟨_, heq⟩ => ?_, fun hall => ?_⟩, fun _ heq => ?_, fun _ _ heq => ?_⟩
    · cases heq
    · obtain ⟨last, hlast⟩ := hall i hi
      rw [htrap] at hlast
      cases hlast
    · cases heq
    · cases heq
      exact ⟨⟨i, hi, trap, rfl, htrap⟩, hfirst⟩

/-- Two matrices of a row, 7 and -6, 2 and 0: the second is negated, the first is doubled in place, and
    the quotient fails at the third call on the lane of the zero. -/
theorem run_simulates_lanes_of_zero_divisor :
    ∃ heap : Heap, heap.Reachable ∧ Uniform heap (f := .matrix) [⟨0⟩, ⟨1⟩] .integer (1, 2) ∧
      (∃ i < 2, Instruction.runLane (F := .arithmetic .matrix .integer) (heap.lane .integer i)
        [.negate ⟨1⟩ ⟨1⟩, .arithmetic .add ⟨0⟩ ⟨0⟩ ⟨0⟩, .arithmetic .divide ⟨1⟩ ⟨0⟩ ⟨1⟩] = .error (2, .divideByZero)) ∧
      ¬∃ after, heap.run [.negate .matrix (some ⟨1⟩) (some ⟨1⟩),
        .arithmetic .matrix .add (some ⟨0⟩) (some ⟨0⟩) (some ⟨0⟩),
        .arithmetic .matrix .divide (some ⟨1⟩) (some ⟨0⟩) (some ⟨1⟩)] = .ok after := by
  let heap : Heap := ⟨.empty, ⟨#[some ⟨1, 2, ⟨.integer, #[Word.wrap .w32 7, Word.wrap .w32 (-6)]⟩⟩,
    some ⟨1, 2, ⟨.integer, #[Word.wrap .w32 2, Word.wrap .w32 0]⟩⟩]⟩⟩
  have made : Heap.empty.run [.newMatrix 3 1 2, .newMatrix 3 1 2, .data .matrix (some ⟨0⟩) [7, -6],
      .data .matrix (some ⟨1⟩) [2, 0]] = .ok heap := rfl
  have uniform : Uniform heap (f := .matrix) [⟨0⟩, ⟨1⟩] .integer (1, 2) := by
    intro p hp
    simp only [List.mem_cons, List.not_mem_nil, or_false] at hp
    rcases hp with rfl | rfl
    · exact ⟨_, rfl, rfl, rfl⟩
    · exact ⟨_, rfl, rfl, rfl⟩
  have lane : Instruction.runLane (F := .arithmetic .matrix .integer) (heap.lane .integer 1)
      [.negate ⟨1⟩ ⟨1⟩, .arithmetic .add ⟨0⟩ ⟨0⟩ ⟨0⟩, .arithmetic .divide ⟨1⟩ ⟨0⟩ ⟨1⟩] =
        .error (2, .divideByZero) := rfl
  refine ⟨heap, Reachable.empty.run made, uniform, ⟨1, by decide, lane⟩, fun completed => ?_⟩
  have simulated := run_simulates_lanes (F := .arithmetic .matrix .integer) (Reachable.empty.run made) uniform
    [.negate ⟨1⟩ ⟨1⟩, .arithmetic .add ⟨0⟩ ⟨0⟩ ⟨0⟩, .arithmetic .divide ⟨1⟩ ⟨0⟩ ⟨1⟩] (by decide)
  obtain ⟨last, hlast⟩ := simulated.1.mp completed 1 (by decide)
  cases lane.symm.trans hlast

end Runs

end Heap

end TypedArrays.Boundary
