import TypedArrays.Proofs.Engine
import TypedArrays.Proofs.Operator
import TypedArrays.Workspace

/-! The containers of a workspace over whole runs.

`Stepped` says once what a command does to a well-formed workspace: it changes nothing, it gives a name
a new container or none, or it stores an output that keeps its kind, size and shape. From that follow
what a run keeps: every matrix has an element for each place of its shape, a container that is not
replaced keeps its profile, and no loop ever sees buffers of different lengths. -/

namespace TypedArrays

/-! ### Traps -/

/-- The trap of a loop over buffers of different lengths. -/
def Trap.IsLengths : Trap → Prop
  | binaryLengths _ _ _ => True
  | unaryLengths _ _ _ => True
  | _ => False

/-- No operator on single elements ends in a trap about lengths. -/
theorem Numeric.apply_trap {n : Numeric} {op : Arithmetic} {a b : n.Carrier} {trap : Trap}
    (h : n.apply op a b = .error trap) : ¬trap.IsLengths := by
  obtain ⟨-, rfl | rfl⟩ := apply_error h
  · exact id
  · exact id

theorem Storage.zeroed_trap {kind : Kind} {size : Nat} {trap : Trap} (h : zeroed kind size = .error trap) :
    ¬trap.IsLengths := by
  unfold zeroed at h
  split at h
  · cases h
  · cases h
    exact id

theorem Vector.zeroed_trap {kind : Kind} {size : Nat} {trap : Trap} (h : zeroed kind size = .error trap) :
    ¬trap.IsLengths :=
  Storage.zeroed_trap (map_eq_error.mp h)

theorem Matrix.sizeOf_trap {rows columns : Nat} {trap : Trap} (h : sizeOf rows columns = .error trap) :
    ¬trap.IsLengths := by
  unfold sizeOf at h
  split at h
  · cases h
  · cases h
    exact id

theorem Matrix.zeroed_trap {kind : Kind} {rows columns : Nat} {trap : Trap}
    (h : zeroed kind rows columns = .error trap) : ¬trap.IsLengths := by
  rcases bind_eq_error.mp h with h | ⟨size, -, h⟩
  · exact sizeOf_trap h
  · rcases bind_eq_error.mp h with h | ⟨s, -, h⟩
    · exact Storage.zeroed_trap h
    · cases h

theorem eq_of_mapError_trap {α : Type} {x : Except Trap α} {trap : Trap}
    (h : x.mapError Halt.trap = .error (.trap trap)) : x = .error trap := by
  obtain ⟨t, ht, ⟨⟩⟩ := mapError_eq_error.mp h
  exact ht

theorem Vector.allocate_trap {kind : Kind} {size : Int} {trap : Trap}
    (h : allocate kind size = .error (.trap trap)) : ¬trap.IsLengths := by
  unfold allocate at h
  split at h
  · cases h
  · exact zeroed_trap (eq_of_mapError_trap h)

theorem Matrix.allocate_trap {kind : Kind} {rows columns : Int} {trap : Trap}
    (h : allocate kind rows columns = .error (.trap trap)) : ¬trap.IsLengths := by
  unfold allocate at h
  split at h
  · cases h
  · split at h
    · cases h
    · exact zeroed_trap (eq_of_mapError_trap h)

theorem Matrix.ofArray_trap {kind : Kind} {rows columns : Nat} {data : Array kind.Carrier} {trap : Trap}
    (h : ofArray kind rows columns data = .error (.trap trap)) : ¬trap.IsLengths := by
  rcases bind_eq_error.mp h with h | ⟨size, -, h⟩
  · exact sizeOf_trap (eq_of_mapError_trap h)
  · split at h
    · cases h
    · cases h

/-! ### Containers -/

namespace Container

/-- What stays the same about a container. -/
structure Profile where
  form : Form
  kind : Kind
  size : Nat
  shape : form.Shape

def profile (c : Container) : Profile := ⟨c.form, c.kind, c.storage.size, c.form.shape c.value⟩

def WellFormed (c : Container) : Prop := c.form.WellFormed c.value

theorem profile_eq_of_alike {f : Form} {c d : f.Carrier} (h : f.Alike c d) :
    profile ⟨f, c⟩ = profile ⟨f, d⟩ := by
  obtain ⟨⟨hkind, hsize⟩, hshape⟩ := h
  simp only [profile, kind, storage, hkind, hsize, hshape]

theorem as?_eq_some {c : Container} {f : Form} {value : f.Carrier} (h : c.as? f = some value) : c = ⟨f, value⟩ := by
  unfold as? at h
  split at h
  · rename_i hf
    subst hf
    cases h
    rfl
  · cases h

end Container

theorem Storage.write_alike {s t : Storage} {kind : Kind} {index : Nat} {value : kind.Carrier}
    (h : s.write kind index value = .ok (some t)) : Alike t s := by
  obtain ⟨data, hread, hdata⟩ := bind_eq_ok.mp h
  obtain rfl := read_eq_ok hread
  split at hdata
  · rename_i hindex
    cases hdata
    exact ⟨rfl, Array.size_set hindex⟩
  · cases hdata

namespace Matrix
variable {m : Matrix} {row column : Nat}

theorem place_lt_size (hm : Form.matrix.WellFormed m) (hrow : row < m.rows) (hcolumn : column < m.columns) :
    m.place row column < m.size := by
  have hnext : (row + 1) * m.columns ≤ m.rows * m.columns := Nat.mul_le_mul_right m.columns hrow
  rw [Nat.succ_mul] at hnext
  rw [hm.1, place]
  omega

theorem get?_eq_some (hm : Form.matrix.WellFormed m) (hrow : row < m.rows) (hcolumn : column < m.columns) :
    ∃ value, m.get? m.kind row column = some value := by
  have hplace := place_lt_size hm hrow hcolumn
  rw [get?, if_pos ⟨hrow, hcolumn⟩, kind, Storage.read_of_eq rfl]
  exact ⟨_, Array.getElem?_eq_getElem hplace⟩

end Matrix

namespace Workspace

theorem build_wellFormed {recipe : Recipe} {c : Container} (h : build recipe = .ok c) : c.WellFormed := by
  cases recipe with
  | vectorZeroed kind size =>
    obtain ⟨v, -, rfl⟩ := map_eq_ok.mp h
    trivial
  | vectorAllocate kind size =>
    obtain ⟨v, -, rfl⟩ := map_eq_ok.mp h
    trivial
  | vectorOfArray kind data =>
    cases h
    trivial
  | vectorOfBools values =>
    cases h
    trivial
  | matrixZeroed kind rows columns =>
    obtain ⟨m, hm, rfl⟩ := map_eq_ok.mp h
    exact Matrix.wellFormed_zeroed (mapError_eq_ok.mp hm)
  | matrixAllocate kind rows columns =>
    obtain ⟨m, hm, rfl⟩ := map_eq_ok.mp h
    exact Matrix.wellFormed_allocate hm
  | matrixOfArray kind rows columns data =>
    obtain ⟨m, hm, rfl⟩ := map_eq_ok.mp h
    exact Matrix.wellFormed_ofArray hm
  | stepRange range step =>
    obtain ⟨v, -, rfl⟩ := map_eq_ok.mp h
    trivial

theorem build_trap {recipe : Recipe} {trap : Trap} (h : build recipe = .error (.trap trap)) : ¬trap.IsLengths := by
  cases recipe with
  | vectorZeroed kind size => exact Vector.zeroed_trap (eq_of_mapError_trap (map_eq_error.mp h))
  | vectorAllocate kind size => exact Vector.allocate_trap (map_eq_error.mp h)
  | vectorOfArray kind data => cases h
  | vectorOfBools values => cases h
  | matrixZeroed kind rows columns => exact Matrix.zeroed_trap (eq_of_mapError_trap (map_eq_error.mp h))
  | matrixAllocate kind rows columns => exact Matrix.allocate_trap (map_eq_error.mp h)
  | matrixOfArray kind rows columns data => exact Matrix.ofArray_trap (map_eq_error.mp h)
  | stepRange range step => exact absurd (map_eq_error.mp h) (range.stepRange_ne_trap step trap)

/-! ### One command -/

variable {ws : Workspace} {command : Command}

/-- Every container is well formed. -/
def WellFormed (ws : Workspace) : Prop := ∀ name c, ws.get? name = some c → c.WellFormed

/-- The trap an answer reports. -/
def Answer.trap? : Answer → Option Trap
  | .written _ (some (.trap trap)) => some trap
  | .halted (.trap trap) => some trap
  | _ => none

theorem Answer.halt_of_trap? {out : Container} {halt : Option Halt} {trap : Trap}
    (h : (Answer.written out halt).trap? = some trap) : halt = some (.trap trap) := by
  rcases halt with _ | cause | cause
  · cases h
  · cases h
  · cases h
    rfl

/-- What a command answers and what the workspace is after it. -/
inductive Stepped (ws : Workspace) : Command → Answer → Workspace → Prop where
  | looked {command : Command} {answer : Answer} (quiet : answer.trap? = none) : Stepped ws command answer ws
  | unmade {slot : String} {recipe : Recipe} {cause : Halt} (failed : build recipe = .error cause) :
      Stepped ws (.make slot recipe) (.halted cause) ws
  | made {slot : String} {recipe : Recipe} {c : Container} (built : build recipe = .ok c) :
      Stepped ws (.make slot recipe) (.made c) (ws.set slot (some c))
  | copied {slot source : String} {c : Container} (found : ws.get? source = some c) :
      Stepped ws (.copy slot source) (.made c) (ws.set slot (some c))
  | dropped {slot : String} : Stepped ws (.drop slot) .done (ws.set slot none)
  | stored {command : Command} {answer : Answer} {name : String} {f : Form} {old value : f.Carrier}
      (found : ws.get? name = some ⟨f, old⟩) (alike : f.Alike value old)
      (lengths : ∀ trap, answer.trap? = some trap → ¬trap.IsLengths) :
      Stepped ws command answer (ws.set name (some ⟨f, value⟩))

/-- What an effect of a command makes of the workspace satisfies a condition. -/
def Yields (ws : Workspace) (Q : Answer → Workspace → Prop) : Effect → Prop
  | .ok (answer, some (name, value)) => Q answer (ws.set name value)
  | .ok (answer, none) => Q answer ws
  | .error answer => Q answer ws

theorem step_of_yields {Q : Answer → Workspace → Prop} (h : ws.Yields Q (ws.evaluate command)) :
    Q (ws.step command).1 (ws.step command).2 := by
  unfold step
  split <;> rename_i heq <;> rw [heq] at h <;> exact h

section Lookups
variable {Q : Answer → Workspace → Prop} {k : Container → Effect} {name : String}

theorem Yields.find (missing : Q (.missing name) ws) (h : ∀ c, ws.get? name = some c → ws.Yields Q (k c)) :
    ws.Yields Q (ws.find name >>= k) := by
  unfold Workspace.find
  cases hname : ws.get? name with
  | none => exact missing
  | some c => exact h c hname

theorem Yields.findForm {f : Form} {k : f.Carrier → Effect} (missing : Q (.missing name) ws)
    (wrongForm : Q (.wrongForm name) ws) (h : ∀ value, ws.get? name = some ⟨f, value⟩ → ws.Yields Q (k value)) :
    ws.Yields Q (ws.findForm f name >>= k) := by
  unfold Workspace.findForm Workspace.find
  cases hname : ws.get? name with
  | none => exact missing
  | some c =>
    cases hform : c.as? f with
    | none =>
      simp only [Option.elim, bind, Except.bind, hform]
      exact wrongForm
    | some value =>
      simp only [Option.elim, bind, Except.bind, hform]
      exact h value (by rw [hname, Container.as?_eq_some hform])

theorem yields_find (h : ∀ c, ws.get? name = some c → ws.Yields (Stepped ws command) (k c)) :
    ws.Yields (Stepped ws command) (ws.find name >>= k) :=
  .find (.looked rfl) h

theorem yields_findForm {f : Form} {k : f.Carrier → Effect}
    (h : ∀ value, ws.get? name = some ⟨f, value⟩ → ws.Yields (Stepped ws command) (k value)) :
    ws.Yields (Stepped ws command) (ws.findForm f name >>= k) :=
  .findForm (.looked rfl) (.looked rfl) h

end Lookups

theorem yields_verdict {α : Type} {answer : α → Answer} {result : Except Fault α}
    (h : ∀ value, (answer value).trap? = none) : ws.Yields (Stepped ws command) (verdict answer result) := by
  cases result with
  | ok value => exact .looked (h value)
  | error cause => exact .looked rfl

theorem yields_store {name : String} {f : Form} {old : f.Carrier} {w : Written f.Carrier}
    (found : ws.get? name = some ⟨f, old⟩) (alike : f.Alike w.out old)
    (lengths : ∀ trap, w.halt = some (.trap trap) → ¬trap.IsLengths) :
    ws.Yields (Stepped ws command) (store name f w) :=
  .stored found alike fun trap h => lengths trap (Answer.halt_of_trap? h)

theorem step_stepped (hws : ws.WellFormed) (command : Command) :
    Stepped ws command (ws.step command).1 (ws.step command).2 := by
  apply step_of_yields
  cases command with
  | make slot recipe =>
    simp only [evaluate]
    cases hbuild : build recipe with
    | ok c => exact Stepped.made hbuild
    | error cause => exact Stepped.unmade hbuild
  | copy slot source => exact yields_find fun c hc => .copied hc
  | drop slot => exact yields_find fun c hc => .dropped
  | describe slot => exact yields_find fun c hc => .looked rfl
  | read slot kind => exact yields_find fun c hc => yields_verdict fun _ => rfl
  | write slot kind index value =>
    refine yields_find fun c hc => ?_
    cases hwrite : c.storage.write kind index value with
    | ok s =>
      cases s with
      | none => exact .looked rfl
      | some s => exact .stored hc (Form.withStorage_alike (Storage.write_alike hwrite)) fun _ h => by cases h
    | error cause => exact .looked rfl
  | get slot kind row column => exact yields_findForm fun m hm => .looked rfl
  | checkSame form lhs rhs =>
    exact yields_findForm fun l hl => yields_findForm fun r hr => yields_verdict fun _ => rfl
  | checkKind slot kind => exact yields_find fun c hc => yields_verdict fun _ => rfl
  | same lhs rhs =>
    refine yields_find fun l hl => yields_find fun r hr => ?_
    cases hform : r.as? l.form with
    | none => exact .looked rfl
    | some value => exact .looked rfl
  | arithmetic form at? op out lhs rhs =>
    refine yields_findForm fun l hl => yields_findForm fun r hr => yields_findForm fun o ho => ?_
    refine yields_store ho (Form.arithmetic_alike ..) fun trap htrap => ?_
    have hwo : form.WellFormed o := hws out _ ho
    have hwl : form.WellFormed l := hws lhs _ hl
    have hwr : form.WellFormed r := hws rhs _ hr
    obtain ⟨n, a, b, hab⟩ := Form.arithmetic_trap hwo hwl hwr htrap
    exact Numeric.apply_trap hab
  | negate form at? out lhs =>
    refine yields_findForm fun l hl => yields_findForm fun o ho => ?_
    have hwo : form.WellFormed o := hws out _ ho
    have hwl : form.WellFormed l := hws lhs _ hl
    exact yields_store ho (Form.negate_alike ..) fun trap htrap => absurd htrap (Form.negate_no_trap hwo hwl trap)
  | not out lhs =>
    refine yields_findForm fun l hl => yields_findForm fun o ho => ?_
    exact yields_store ho (Vector.not_alike o l) fun trap htrap => absurd htrap (Vector.not_no_trap o l trap)
  | logic op out lhs rhs =>
    refine yields_findForm fun l hl => yields_findForm fun r hr => yields_findForm fun o ho => ?_
    exact yields_store ho (Vector.logic_alike op o l r) fun trap htrap =>
      absurd htrap (Vector.logic_no_trap op o l r trap)
  | logicScalar op out lhs rhs =>
    refine yields_findForm fun l hl => yields_findForm fun o ho => ?_
    exact yields_store ho (Vector.logicScalar_alike op rhs o l) fun trap htrap =>
      absurd htrap (Vector.logicScalar_no_trap op o l rhs trap)
  | equal lhs rhs => exact yields_findForm fun l hl => yields_findForm fun r hr => yields_verdict fun _ => rfl
  | notEqual lhs rhs => exact yields_findForm fun l hl => yields_findForm fun r hr => yields_verdict fun _ => rfl

/-! ### What a command keeps -/

section Kept
variable {answer : Answer} {after : Workspace} {name : String} {c : Container}

theorem WellFormed.set {value : Option Container} (hws : ws.WellFormed) (h : ∀ c, value = some c → c.WellFormed) :
    WellFormed (ws.set name value) := by
  intro other c hc
  rw [Names.get?_set] at hc
  split at hc
  · exact h c hc
  · exact hws other c hc

theorem WellFormed.stepped (hws : ws.WellFormed) (h : Stepped ws command answer after) : after.WellFormed := by
  cases h with
  | looked quiet => exact hws
  | unmade failed => exact hws
  | made built =>
    refine hws.set fun c hc => ?_
    cases hc
    exact build_wellFormed built
  | copied found =>
    refine hws.set fun c hc => ?_
    cases hc
    exact hws _ _ found
  | dropped => exact hws.set fun c hc => by cases hc
  | @stored _ _ slot f old value found alike lengths =>
    have hold : f.WellFormed old := hws slot _ found
    refine hws.set fun c hc => ?_
    cases hc
    exact hold.of_alike alike

/-- A command gives a name a new container, or none. -/
def Replaces (ws : Workspace) (name : String) : Command → Prop
  | .make slot recipe => slot = name ∧ ∃ c, build recipe = .ok c
  | .copy slot source => slot = name ∧ ∃ c, ws.get? source = some c
  | .drop slot => slot = name
  | _ => False

theorem Stepped.profile (h : Stepped ws command answer after) (hkept : ¬ws.Replaces name command)
    (hc : ws.get? name = some c) : ∃ d, after.get? name = some d ∧ d.profile = c.profile := by
  -- A change to another name leaves the container where it is.
  have hother : ∀ {slot : String} (value : Option Container), ¬slot = name →
      ∃ d, (ws.set slot value).get? name = some d ∧ d.profile = c.profile := fun value hne =>
    ⟨c, by rw [Names.get?_set, if_neg (Ne.symm hne), hc], rfl⟩
  cases h with
  | looked quiet => exact ⟨c, hc, rfl⟩
  | unmade failed => exact ⟨c, hc, rfl⟩
  | made built => exact hother _ fun hslot => hkept ⟨hslot, _, built⟩
  | copied found => exact hother _ fun hslot => hkept ⟨hslot, _, found⟩
  | dropped => exact hother _ hkept
  | @stored _ _ slot f old value found alike lengths =>
    by_cases hslot : slot = name
    · subst hslot
      rw [found] at hc
      cases hc
      exact ⟨⟨f, value⟩, by rw [Names.get?_set, if_pos rfl], Container.profile_eq_of_alike alike⟩
    · exact hother _ hslot

theorem Stepped.lengths {trap : Trap} (h : Stepped ws command answer after) (htrap : answer.trap? = some trap) :
    ¬trap.IsLengths := by
  cases h with
  | looked quiet =>
    rw [quiet] at htrap
    cases htrap
  | @unmade _ _ cause failed =>
    cases cause with
    | fault cause => cases htrap
    | trap cause =>
      cases htrap
      exact build_trap failed
  | made built => cases htrap
  | copied found => cases htrap
  | dropped => cases htrap
  | stored found alike lengths => exact lengths trap htrap

end Kept

/-! ### Runs -/

/-- No command of a run gives a name a new container, or none. -/
def Undisturbed (name : String) (ws : Workspace) : List Command → Prop
  | [] => True
  | command :: rest => ¬ws.Replaces name command ∧ Undisturbed name (ws.step command).2 rest

theorem wellFormed_empty : WellFormed .empty := by
  intro name c h
  cases h

section Runs
variable (hws : ws.WellFormed)
include hws

theorem WellFormed.run (commands : List Command) : (ws.run commands).2.WellFormed := by
  induction commands generalizing ws with
  | nil => exact hws
  | cons command rest ih => exact ih (hws.stepped (step_stepped hws command))

theorem run_profile {name : String} {c : Container} {commands : List Command} (hc : ws.get? name = some c)
    (h : Undisturbed name ws commands) : ∃ d, (ws.run commands).2.get? name = some d ∧ d.profile = c.profile := by
  induction commands generalizing ws c with
  | nil => exact ⟨c, hc, rfl⟩
  | cons command rest ih =>
    have hstep := step_stepped hws command
    obtain ⟨d, hd, hprofile⟩ := hstep.profile h.1 hc
    obtain ⟨e, he, hprofile'⟩ := ih (hws.stepped hstep) hd h.2
    exact ⟨e, he, hprofile'.trans hprofile⟩

theorem run_lengths {commands : List Command} {answer : Answer} {trap : Trap} (h : answer ∈ (ws.run commands).1)
    (htrap : answer.trap? = some trap) : ¬trap.IsLengths := by
  induction commands generalizing ws with
  | nil => cases h
  | cons command rest ih =>
    have hstep := step_stepped hws command
    rcases List.mem_cons.mp h with rfl | hrest
    · exact hstep.lengths htrap
    · exact ih (hws.stepped hstep) hrest

end Runs

/-- What every run keeps, whether its commands complete, are refused or trap part way: matrices have an
    element for each place of their shape, and a container has one profile for as long as it exists. Hence
    no place is past the storage or the largest size, and no loop sees buffers of different lengths. -/
theorem run_keeps_representation (before after : List Command) :
    let ws := (run .empty before).2
    (∀ name m, ws.get? name = some (.ofMatrix m) →
        m.size = m.rows * m.columns ∧ m.rows * m.columns < sizeLimit) ∧
      (∀ name c, ws.get? name = some c → Undisturbed name ws after →
        ∃ d, (ws.run after).2.get? name = some d ∧ d.profile = c.profile) ∧
      (∀ name m row column, ws.get? name = some (.ofMatrix m) → row < m.rows → column < m.columns →
        row * m.columns < sizeLimit ∧ m.place row column < sizeLimit ∧ m.place row column < m.size ∧
          ∃ value, m.get? m.kind row column = some value) ∧
      ∀ answer ∈ (run .empty before).1, ∀ trap, answer.trap? = some trap → ¬trap.IsLengths := by
  intro ws
  have hws : ws.WellFormed := wellFormed_empty.run before
  refine ⟨fun name m hm => hws name _ hm, fun name c => run_profile hws, ?_,
    fun answer h trap => run_lengths wellFormed_empty h⟩
  intro name m row column hm hrow hcolumn
  have hformed : Form.matrix.WellFormed m := hws name _ hm
  have hplace := Matrix.place_lt_size hformed hrow hcolumn
  have hlimit : m.place row column < sizeLimit := Nat.lt_trans (hformed.1 ▸ hplace) hformed.2
  refine ⟨?_, hlimit, hplace, Matrix.get?_eq_some hformed hrow hcolumn⟩
  exact Nat.lt_of_le_of_lt (Nat.le_add_right _ column) hlimit

/-- The quotient of `[6, 1]` by `[2, 0]` traps at its second element; its output is a matrix as before. -/
theorem run_keeps_representation_through_trap :
    let before : List Command :=
      [.make "a" (.matrixOfArray .integer 1 2 #[.wrap .w32 6, .wrap .w32 1]),
        .make "b" (.matrixOfArray .integer 1 2 #[.wrap .w32 2, .wrap .w32 0]), .make "out" (.matrixZeroed .integer 1 2)]
    let after : List Command := [.arithmetic .matrix none .divide "out" "a" "b"]
    let ws := (run .empty before).2
    Undisturbed "out" ws after ∧ (ws.run after).1.map Answer.trap? = [some .divideByZero] ∧
      ∃ c d, ws.get? "out" = some c ∧ (ws.run after).2.get? "out" = some d ∧ d.profile = c.profile := by
  intro before after ws
  have hkept : Undisturbed "out" ws after := ⟨id, trivial⟩
  obtain ⟨-, hprofile, -⟩ := run_keeps_representation before after
  obtain ⟨d, hd⟩ := hprofile "out" _ rfl hkept
  exact ⟨hkept, rfl, _, d, rfl, hd⟩

end Workspace

end TypedArrays
