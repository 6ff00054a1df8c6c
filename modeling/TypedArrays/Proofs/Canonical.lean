import TypedArrays.Proofs.Logic
import TypedArrays.Proofs.Refusal
import TypedArrays.Proofs.Workspace

/-! Boolean vectors of a workspace over whole runs, and formulas over them.

`Origin` says where a container comes from that a name has after a command. Unless a command stores bytes
of the caller's choice, it leaves boolean vectors canonical: new ones are, and so is every output of logic.
On canonical vectors a formula, worked out by one command for each of its nodes, gives at every place the
value that it has on the truth values there. -/

namespace TypedArrays

/-! ### Single operations -/

theorem Vector.zeroed_canonical {kind : Kind} {size : Nat} {v : Vector} (h : zeroed kind size = .ok v) :
    v.Canonical := by
  obtain ⟨s, hs, rfl⟩ := map_eq_ok.mp h
  unfold Storage.zeroed at hs
  split at hs
  · cases hs
    by_cases hkind : kind = .boolean
    · subst hkind
      refine Vector.canonical_ofArray fun byte hbyte => Or.inl ?_
      exact (Array.mem_replicate.mp hbyte).2
    · exact Vector.canonical_of_kind hkind
  · cases hs

theorem Interval.stepRange_kind {range : Interval .w32} {step : Word .w32} {v : Vector}
    (h : range.stepRange step = .ok v) : v.kind = .integer := by
  obtain ⟨p, -, hp⟩ := bind_eq_ok.mp h
  split at hp
  · cases hp
    rfl
  · cases hp

theorem Storage.write_kind {s t : Storage} {kind : Kind} {index : Nat} {value : kind.Carrier}
    (h : s.write kind index value = .ok (some t)) : t.kind = kind := by
  obtain ⟨data, -, hdata⟩ := bind_eq_ok.mp h
  split at hdata
  · cases hdata
    rfl
  · cases hdata

/-- Operations on vectors leave a canonical output canonical: refused ones do not touch it, and arithmetic
    has no boolean output. -/
theorem Operation.run_canonical (op : Operation .vector) {out : Vector} (h : out.Canonical) (lhs rhs : Vector) :
    Vector.Canonical (op.run out lhs rhs).out := by
  have hnumeric : ∀ {n : Numeric} {w : Written Vector} {s : Sweep n.kind.Carrier},
      w = (Storage.ofSweep n.kind s).map Vector.mk → w.out.Canonical := by
    rintro n _ s rfl
    refine Vector.canonical_of_kind ?_
    cases n <;> exact Kind.noConfusion
  -- A logic loop does not trap, so if it ran at all it completed.
  have hran : ∀ {w : Written Vector}, op.Ran out lhs rhs w → (∀ trap, w.halt ≠ some (.trap trap)) → w.halt = none := by
    intro w hw htrap
    rcases hhalt : w.halt with _ | cause | trap
    · rfl
    · exact absurd hhalt (hw.ne_fault cause)
    · exact absurd hhalt (htrap trap)
  rcases op.run_decided out lhs rhs with ⟨cause, -, hrun⟩ | ⟨-, hw⟩
  · rw [hrun]
    exact h
  · cases op with
    | arithmetic at? op =>
      obtain ⟨n, _, _, _, -, -, -, heq⟩ := hw
      exact hnumeric heq
    | negate at? =>
      obtain ⟨n, _, _, -, -, heq⟩ := hw
      exact hnumeric heq
    | not => exact Vector.not_canonical (hran hw (Vector.not_no_trap out lhs))
    | logic op => exact Vector.logic_canonical (hran hw (Vector.logic_no_trap op out lhs rhs))
    | logicScalar op byte => exact Vector.logicScalar_canonical (hran hw (Vector.logicScalar_no_trap op out lhs byte))

namespace Workspace

variable {ws : Workspace} {command : Command}

/-! ### Where containers come from -/

/-- Where the container comes from that a name has after a command. -/
inductive Origin (ws : Workspace) (name : String) : Command → Container → Prop where
  | kept {command : Command} {c : Container} (found : ws.get? name = some c) : Origin ws name command c
  | made {recipe : Recipe} {c : Container} (built : build recipe = .ok c) : Origin ws name (.make name recipe) c
  | copied {source : String} {c : Container} (found : ws.get? source = some c) : Origin ws name (.copy name source) c
  | stored {kind : Kind} {index : Nat} {value : kind.Carrier} {c : Container} {s : Storage}
      (found : ws.get? name = some c) (written : c.storage.write kind index value = .ok (some s)) :
      Origin ws name (.write name kind index value) (c.withStorage s)
  | computed {command : Command} {f : Form} {o : f.Carrier} (found : ws.get? name = some ⟨f, o⟩) (op : Operation f)
      (l r : f.Carrier) : Origin ws name command ⟨f, (op.run o l r).out⟩

/-- All containers after a command have an origin. -/
def Traced (ws : Workspace) (command : Command) (after : Workspace) : Prop :=
  ∀ name c, after.get? name = some c → Origin ws name command c

theorem traced_self : Traced ws command ws := fun _ _ found => .kept found

theorem traced_set {slot : String} {value : Option Container} (h : ∀ c, value = some c → Origin ws slot command c) :
    Traced ws command (ws.set slot value) := by
  intro name c hc
  rw [Names.get?_set] at hc
  split at hc
  · rename_i hslot
    subst hslot
    exact h c hc
  · exact .kept hc

theorem traced_some {slot : String} {c : Container} (h : Origin ws slot command c) :
    Traced ws command (ws.set slot (some c)) :=
  traced_set fun _ heq => Option.some.inj heq ▸ h

theorem step_traced (command : Command) : Traced ws command (ws.step command).2 := by
  let Q : Answer → Workspace → Prop := fun _ after => Traced ws command after
  suffices h : ws.Yields Q (ws.evaluate command) from step_of_yields h
  have find : ∀ {name : String} {k : Container → Effect},
      (∀ c, ws.get? name = some c → ws.Yields Q (k c)) → ws.Yields Q (ws.find name >>= k) := .find traced_self
  have findForm : ∀ {name : String} {f : Form} {k : f.Carrier → Effect},
      (∀ value, ws.get? name = some ⟨f, value⟩ → ws.Yields Q (k value)) → ws.Yields Q (ws.findForm f name >>= k) :=
    .findForm traced_self traced_self
  have verdict : ∀ {α : Type} {answer : α → Answer} {result : Except Fault α},
      ws.Yields Q (Workspace.verdict answer result) := by
    rintro α answer (cause | value) <;> exact traced_self
  cases command with
  | make slot recipe =>
    simp only [evaluate]
    cases hbuild : build recipe with
    | ok c => exact traced_some (.made hbuild)
    | error cause => exact traced_self
  | copy slot source => exact find fun c hc => traced_some (.copied hc)
  | drop slot => exact find fun c hc => traced_set fun _ h => by cases h
  | describe slot => exact find fun c hc => traced_self
  | read slot kind => exact find fun c hc => verdict
  | write slot kind index value =>
    refine find fun c hc => ?_
    rcases hwrite : c.storage.write kind index value with cause | _ | s
    · exact traced_self
    · exact traced_self
    · exact traced_some (.stored hc hwrite)
  | get slot kind row column => exact findForm fun m hm => traced_self
  | checkSame form lhs rhs => exact findForm fun l hl => findForm fun r hr => verdict
  | checkKind slot kind => exact find fun c hc => verdict
  | same lhs rhs =>
    refine find fun l hl => find fun r hr => ?_
    rcases r.as? l.form with _ | value <;> exact traced_self
  | arithmetic form at? op out lhs rhs =>
    exact findForm fun l hl => findForm fun r hr => findForm fun o ho =>
      traced_some (.computed ho (.arithmetic at? op) l r)
  | negate form at? out lhs =>
    exact findForm fun l hl => findForm fun o ho => traced_some (.computed ho (.negate at?) l l)
  | not out lhs =>
    exact findForm fun l hl => findForm fun o ho => traced_some (.computed (f := .vector) ho .not l l)
  | logic op out lhs rhs =>
    exact findForm fun l hl => findForm fun r hr => findForm fun o ho =>
      traced_some (.computed (f := .vector) ho (.logic op) l r)
  | logicScalar op out lhs rhs =>
    exact findForm fun l hl => findForm fun o ho => traced_some (.computed (f := .vector) ho (.logicScalar op rhs) l l)
  | equal lhs rhs => exact findForm fun l hl => findForm fun r hr => verdict
  | notEqual lhs rhs => exact findForm fun l hl => findForm fun r hr => verdict

/-! ### Canonical workspaces -/

/-- Every boolean vector holds zeros and ones only. -/
def Canonical (ws : Workspace) : Prop := ∀ name v, ws.get? name = some (.ofVector v) → v.Canonical

theorem build_canonical {recipe : Recipe} {v : Vector} (h : build recipe = .ok (.ofVector v))
    (hraw : ∀ data, recipe ≠ .vectorOfArray .boolean data) : v.Canonical := by
  cases recipe with
  | vectorZeroed kind size =>
    obtain ⟨u, hu, ⟨⟩⟩ := map_eq_ok.mp h
    exact Vector.zeroed_canonical (mapError_eq_ok.mp hu)
  | vectorAllocate kind size =>
    obtain ⟨u, hu, ⟨⟩⟩ := map_eq_ok.mp h
    unfold Vector.allocate at hu
    split at hu
    · cases hu
    · exact Vector.zeroed_canonical (mapError_eq_ok.mp hu)
  | vectorOfArray kind data =>
    cases h
    refine Vector.canonical_of_kind ?_
    rintro rfl
    exact hraw data rfl
  | vectorOfBools values =>
    cases h
    refine Vector.canonical_ofArray fun byte hbyte => ?_
    obtain ⟨value, -, rfl⟩ := List.mem_map.mp (List.mem_toArray.mp hbyte)
    exact Logic.isBit_byte value
  | matrixZeroed kind rows columns => obtain ⟨m, -, ⟨⟩⟩ := map_eq_ok.mp h
  | matrixAllocate kind rows columns => obtain ⟨m, -, ⟨⟩⟩ := map_eq_ok.mp h
  | matrixOfArray kind rows columns data => obtain ⟨m, -, ⟨⟩⟩ := map_eq_ok.mp h
  | stepRange range step =>
    obtain ⟨u, hu, ⟨⟩⟩ := map_eq_ok.mp h
    refine Vector.canonical_of_kind ?_
    rw [Interval.stepRange_kind hu]
    exact Kind.noConfusion

/-- A command stores bytes of the caller's choice in a boolean vector. -/
def StoresBytes (ws : Workspace) : Command → Prop
  | .make _ (.vectorOfArray kind _) => kind = .boolean
  | .write slot kind _ _ => kind = .boolean ∧ ∃ v : Vector, ws.get? slot = some (.ofVector v)
  | _ => False

theorem Canonical.step (h : ws.Canonical) (hbytes : ¬ws.StoresBytes command) : Canonical (ws.step command).2 := by
  intro name v hv
  have origin := step_traced command name _ hv
  generalize hc : Container.ofVector v = c at origin
  cases origin with
  | kept found => exact h name v (hc ▸ found)
  | made built =>
    subst hc
    refine build_canonical built ?_
    rintro data rfl
    exact hbytes rfl
  | copied found => exact h _ v (hc ▸ found)
  | @stored kind index value c s found written =>
    obtain ⟨f, u⟩ := c
    cases hc
    refine Vector.canonical_of_kind fun hkind => hbytes ⟨?_, u, found⟩
    exact (Storage.write_kind written).symm.trans hkind
  | computed found op l r =>
    cases hc
    exact op.run_canonical (h name _ found) l r

/-- No command of a run stores bytes of the caller's choice in a boolean vector. -/
def Careful (ws : Workspace) : List Command → Prop
  | [] => True
  | command :: rest => ¬ws.StoresBytes command ∧ Careful (ws.step command).2 rest

theorem Canonical.run (h : ws.Canonical) {commands : List Command} (hc : ws.Careful commands) :
    Canonical (ws.run commands).2 := by
  induction commands generalizing ws with
  | nil => exact h
  | cons command rest ih => exact ih (h.step hc.1) hc.2

theorem canonical_empty : Canonical .empty := by
  intro name v h
  cases h

/-! ### Formulas -/

/-- A formula over the boolean vectors of a workspace. Every operator has a name for its output. -/
inductive Formula where
  | input (name : String)
  | not (out : String) (operand : Formula)
  | combine (op : Logic) (out : String) (lhs rhs : Formula)

namespace Formula

/-- The name that has the value of a formula once this is worked out. -/
def result : Formula → String
  | input name => name
  | not out _ => out
  | combine _ out _ _ => out

def inputs : Formula → List String
  | input name => [name]
  | not _ operand => operand.inputs
  | combine _ _ lhs rhs => lhs.inputs ++ rhs.inputs

def outputs : Formula → List String
  | input _ => []
  | not out operand => out :: operand.outputs
  | combine _ out lhs rhs => out :: (lhs.outputs ++ rhs.outputs)

/-- The commands that work a formula out, one for each operator and operands first. -/
def code : Formula → List Command
  | input _ => []
  | not out operand => operand.code ++ [.not out operand.result]
  | combine op out lhs rhs => lhs.code ++ rhs.code ++ [.logic op out lhs.result rhs.result]

/-- The value of a formula on truth values for its inputs. -/
def value (truth : String → Bool) : Formula → Bool
  | input name => truth name
  | not _ operand => !operand.value truth
  | combine op _ lhs rhs => op.onBools (lhs.value truth) (rhs.value truth)

/-- No output overwrites an input or a result that is still to be read. -/
def Safe : Formula → Prop
  | input _ => True
  | not _ operand => operand.Safe
  | combine _ _ lhs rhs =>
    lhs.Safe ∧ rhs.Safe ∧ (∀ name ∈ rhs.inputs, name ∉ lhs.outputs) ∧ lhs.result ∉ rhs.outputs

theorem result_mem (e : Formula) : e.result ∈ e.inputs ∨ e.result ∈ e.outputs := by
  cases e with
  | input name => exact Or.inl (List.mem_singleton_self name)
  | not out operand => exact Or.inr List.mem_cons_self
  | combine op out lhs rhs => exact Or.inr List.mem_cons_self

theorem safe_of_distinct (e : Formula) (hnodup : e.outputs.Nodup) (hfresh : ∀ name ∈ e.inputs, name ∉ e.outputs) :
    e.Safe := by
  induction e with
  | input name => trivial
  | not out operand ih =>
    refine ih (List.nodup_cons.mp hnodup).2 fun name h hout => ?_
    exact hfresh name h (List.mem_cons_of_mem out hout)
  | combine op out lhs rhs ihl ihr =>
    simp only [inputs, outputs, List.nodup_cons, List.nodup_append, List.mem_cons, List.mem_append, not_or] at hnodup hfresh
    obtain ⟨-, hl, hr, hdisjoint⟩ := hnodup
    refine ⟨ihl hl fun name h => (hfresh name (Or.inl h)).2.1, ihr hr fun name h => (hfresh name (Or.inr h)).2.2,
      fun name h => (hfresh name (Or.inr h)).2.1, fun h => ?_⟩
    rcases lhs.result_mem with hresult | hresult
    · exact (hfresh _ (Or.inl hresult)).2.2 h
    · exact hdisjoint _ hresult _ h rfl

end Formula

/-- A name has the boolean vector of some truth values. -/
def Holds (ws : Workspace) (n : Nat) (name : String) (truth : Nat → Bool) : Prop :=
  ws.get? name = some (.ofVector (.ofTruth n truth))

/-- A name has a boolean vector of a given size. -/
def HasRoom (ws : Workspace) (n : Nat) (name : String) : Prop :=
  ∃ v : Vector, ws.get? name = some (.ofVector v) ∧ v.kind = .boolean ∧ v.size = n

/-- What the commands of a formula do to a workspace. -/
structure Evaluated (e : Formula) (n : Nat) (truth : String → Nat → Bool) (ws after : Workspace) : Prop where
  holds : after.Holds n e.result fun i => e.value fun name => truth name i
  kept : ∀ name, name ∉ e.outputs → after.get? name = ws.get? name
  room : ∀ name, ws.HasRoom n name → after.HasRoom n name

/-- All commands of a list complete. -/
def Completes (ws : Workspace) (commands : List Command) : Prop :=
  ∀ answer ∈ (ws.run commands).1, ∃ c, answer = .written c none

section Runs
variable {first second : List Command} {n : Nat} {name : String} {truth : Nat → Bool}

theorem run_append (ws : Workspace) (first second : List Command) :
    ws.run (first ++ second) =
      ((ws.run first).1 ++ ((ws.run first).2.run second).1, ((ws.run first).2.run second).2) := by
  induction first generalizing ws with
  | nil => rfl
  | cons command rest ih => simp only [List.cons_append, run, ih]

theorem Completes.append (h₁ : ws.Completes first) (h₂ : Completes (ws.run first).2 second) :
    ws.Completes (first ++ second) := by
  intro answer hanswer
  rw [run_append] at hanswer
  rcases List.mem_append.mp hanswer with hanswer | hanswer
  · exact h₁ answer hanswer
  · exact h₂ answer hanswer

theorem findForm_of_found {f : Form} {c : f.Carrier} (h : ws.get? name = some ⟨f, c⟩) :
    ws.findForm f name = .ok c := by
  simp only [findForm, find, h, Option.elim, bind, Except.bind, Container.as?, ↓reduceDIte]

theorem run_not {out lhs : String} (ho : ws.HasRoom n out) (hl : ws.Holds n lhs truth) :
    ws.Completes [.not out lhs] ∧
      (ws.run [.not out lhs]).2 = ws.set out (some (.ofVector (.ofTruth n fun i => !truth i))) := by
  obtain ⟨o, ho, hkind, hsize⟩ := ho
  have hstep : ws.step (.not out lhs) = (.written (.ofVector (.ofTruth n fun i => !truth i)) none,
      ws.set out (some (.ofVector (.ofTruth n fun i => !truth i)))) := by
    simp only [step, evaluate, findForm_of_found ho, findForm_of_found hl, bind, Except.bind,
      Vector.not_ofTruth hkind hsize, store]
    rfl
  simp [Completes, run, hstep]

theorem run_logic (op : Logic) {out lhs rhs : String} {s t : Nat → Bool} (ho : ws.HasRoom n out)
    (hl : ws.Holds n lhs s) (hr : ws.Holds n rhs t) :
    ws.Completes [.logic op out lhs rhs] ∧ (ws.run [.logic op out lhs rhs]).2 =
      ws.set out (some (.ofVector (.ofTruth n fun i => op.onBools (s i) (t i)))) := by
  obtain ⟨o, ho, hkind, hsize⟩ := ho
  have hstep : ws.step (.logic op out lhs rhs) =
      (.written (.ofVector (.ofTruth n fun i => op.onBools (s i) (t i))) none,
        ws.set out (some (.ofVector (.ofTruth n fun i => op.onBools (s i) (t i))))) := by
    simp only [step, evaluate, findForm_of_found ho, findForm_of_found hl, findForm_of_found hr, bind, Except.bind,
      Vector.logic_ofTruth op hkind hsize, store]
    rfl
  simp [Completes, run, hstep]

theorem HasRoom.set {out : String} (h : ws.HasRoom n name) (truth : Nat → Bool) :
    HasRoom (ws.set out (some (.ofVector (.ofTruth n truth)))) n name := by
  by_cases hname : name = out
  · refine ⟨.ofTruth n truth, by rw [Names.get?_set, if_pos hname], rfl, ?_⟩
    simp [Vector.ofTruth, Vector.ofArray, Vector.size, Storage.size]
  · obtain ⟨v, hv, hvector⟩ := h
    exact ⟨v, by rw [Names.get?_set, if_neg hname, hv], hvector⟩

end Runs

/-- Working a formula out completes, leaves its value under the name of its result, and changes no name but
    those of its outputs. -/
theorem Formula.run_code {n : Nat} {truth : String → Nat → Bool} (e : Formula) (hsafe : e.Safe)
    (hin : ∀ name ∈ e.inputs, ws.Holds n name (truth name)) (hout : ∀ name ∈ e.outputs, ws.HasRoom n name) :
    ws.Completes e.code ∧ Evaluated e n truth ws (ws.run e.code).2 := by
  induction e generalizing ws with
  | input name =>
    exact ⟨fun answer h => (by cases h), hin name (List.mem_singleton_self name), fun _ _ => rfl, fun _ h => h⟩
  | not out operand ih =>
    obtain ⟨hdone, hoperand⟩ := ih hsafe hin fun name h => hout name (List.mem_cons_of_mem out h)
    obtain ⟨hlast, hafter⟩ := run_not (hoperand.room out (hout out List.mem_cons_self)) hoperand.holds
    refine ⟨hdone.append hlast, ?_⟩
    rw [code, run_append, hafter]
    refine ⟨?_, fun name hname => ?_, fun name hname => (hoperand.room name hname).set _⟩
    · exact (Names.get?_set ..).trans (if_pos rfl)
    · rw [outputs, List.mem_cons, not_or] at hname
      rw [Names.get?_set, if_neg hname.1, hoperand.kept name hname.2]
  | combine op out lhs rhs ihl ihr =>
    obtain ⟨hl, hr, hinputs, hresult⟩ := hsafe
    simp only [inputs, outputs, List.mem_cons, List.mem_append] at hin hout
    obtain ⟨hldone, hlhs⟩ := ihl hl (fun name h => hin name (Or.inl h)) fun name h => hout name (Or.inr (Or.inl h))
    -- The inputs of the right operand are still there, and there is room for its outputs.
    obtain ⟨hrdone, hrhs⟩ := ihr hr
      (fun name h => (hlhs.kept name (hinputs name h)).trans (hin name (Or.inr h)))
      (fun name h => hlhs.room name (hout name (Or.inr (Or.inr h))))
    have hleft : Holds _ n lhs.result _ := (hrhs.kept lhs.result hresult).trans hlhs.holds
    obtain ⟨hlast, hafter⟩ :=
      run_logic op (hrhs.room out (hlhs.room out (hout out (Or.inl rfl)))) hleft hrhs.holds
    have hrun : (ws.run (lhs.code ++ rhs.code)).2 = ((ws.run lhs.code).2.run rhs.code).2 := by rw [run_append]
    refine ⟨(hldone.append hrdone).append (hrun ▸ hlast), ?_⟩
    rw [code, run_append, hrun, hafter]
    refine ⟨?_, fun name hname => ?_, fun name hname => (hrhs.room name (hlhs.room name hname)).set _⟩
    · exact (Names.get?_set ..).trans (if_pos rfl)
    · rw [outputs, List.mem_cons, List.mem_append, not_or, not_or] at hname
      rw [Names.get?_set, if_neg hname.1, hrhs.kept name hname.2.2, hlhs.kept name hname.2.1]

/-- Whether the byte at a place of the boolean vector under a name is true. -/
def truth (ws : Workspace) (name : String) (i : Nat) : Bool :=
  match ws.get? name with
  | some ⟨.vector, v⟩ => v.truth i
  | _ => false

theorem Canonical.holds {n : Nat} {name : String} (h : ws.Canonical) (hname : ws.HasRoom n name) :
    ws.Holds n name (ws.truth name) := by
  obtain ⟨v, hv, hkind, rfl⟩ := hname
  have htruth : ws.truth name = v.truth := by
    funext i
    simp only [truth, hv, Container.ofVector]
  rw [Holds, htruth, ← (h name v hv).eq_ofTruth hkind]
  exact hv

/-- Take any run in which no bytes of the caller's choice are stored in boolean vectors. After it every
    boolean vector holds zeros and ones only. Any safe formula over boolean vectors of one size can be worked
    out with one command for each operator, and the byte at each place of its result is one exactly if the
    formula is true there; outputs of their own for all operators make a formula safe. Outputs of completed
    logic operations are canonical for all operands. -/
theorem run_keeps_canonical (commands : List Command) (careful : Careful .empty commands) :
    let ws := (run .empty commands).2
    (∀ name data, ws.get? name = some (.ofVector (.ofArray .boolean data)) → ∀ byte ∈ data, byte = 0 ∨ byte = 1) ∧
    (∀ (e : Formula) (n : Nat), e.Safe → (∀ name ∈ e.inputs ++ e.outputs, ws.HasRoom n name) →
      (∀ answer ∈ (ws.run e.code).1, ∃ c, answer = .written c none) ∧
      ∃ data, (ws.run e.code).2.get? e.result = some (.ofVector (.ofArray .boolean data)) ∧ data.size = n ∧
        ∀ i < n, data[i]? = some (if e.value (fun name => ws.truth name i) then 1 else 0)) ∧
    (∀ e : Formula, e.outputs.Nodup → (∀ name ∈ e.inputs, name ∉ e.outputs) → e.Safe) ∧
    (∀ out lhs, (Vector.not out lhs).halt = none → (Vector.not out lhs).out.Canonical) ∧
    (∀ op out lhs rhs, (Vector.logic op out lhs rhs).halt = none → (Vector.logic op out lhs rhs).out.Canonical) ∧
    ∀ op out lhs byte, (Vector.logicScalar op out lhs byte).halt = none →
      (Vector.logicScalar op out lhs byte).out.Canonical := by
  intro ws
  have hws : ws.Canonical := canonical_empty.run careful
  refine ⟨fun name data h => hws name _ h data rfl, fun e n hsafe hroom => ?_, Formula.safe_of_distinct,
    fun out lhs => Vector.not_canonical, fun op out lhs rhs => Vector.logic_canonical,
    fun op out lhs byte => Vector.logicScalar_canonical⟩
  obtain ⟨hdone, hevaluated⟩ := e.run_code hsafe
    (fun name h => hws.holds (hroom name (List.mem_append_left _ h)))
    (fun name h => hroom name (List.mem_append_right _ h))
  refine ⟨hdone, _, hevaluated.holds, by simp, fun i hi => ?_⟩
  simp [hi, Logic.byte]

/-- The byte 254 is true though its lowest bit is zero, so `b` is all ones. The formula `not a xor b` is then
    worked out into a copy of `a` and into `b` itself. -/
theorem run_keeps_canonical_of_even_byte :
    let commands : List Command :=
      [.make "a" (.vectorOfBools [true, false]), .make "b" (.vectorZeroed .boolean 2), .copy "c" "a",
        .logicScalar .or "b" "a" 254]
    let e : Formula := .combine .xor "b" (.not "c" (.input "a")) (.input "b")
    let ws := (run .empty commands).2
    Careful .empty commands ∧ e.Safe ∧ (∀ name ∈ e.inputs ++ e.outputs, ws.HasRoom 2 name) ∧
      ∃ data, (ws.run e.code).2.get? "b" = some (.ofVector (.ofArray .boolean data)) ∧ data.size = 2 ∧
        data[0]? = some 1 ∧ data[1]? = some 0 := by
  intro commands e ws
  have careful : Careful .empty commands := ⟨id, id, id, id, trivial⟩
  have hsafe : e.Safe := by simp [e, Formula.Safe, Formula.inputs, Formula.outputs, Formula.result]
  have hroom : ∀ name ∈ e.inputs ++ e.outputs, ws.HasRoom 2 name := by
    intro name hname
    simp only [e, Formula.inputs, Formula.outputs, List.cons_append, List.nil_append, List.append_nil, List.mem_cons,
      List.not_mem_nil, or_false] at hname
    rcases hname with rfl | rfl | rfl | rfl <;> exact ⟨_, rfl, rfl, rfl⟩
  obtain ⟨-, hformulas, -⟩ := run_keeps_canonical commands careful
  obtain ⟨-, data, hresult, hsize, hbytes⟩ := hformulas e 2 hsafe hroom
  exact ⟨careful, hsafe, hroom, data, hresult, hsize, hbytes 0 (by decide), hbytes 1 (by decide)⟩

end Workspace

end TypedArrays
