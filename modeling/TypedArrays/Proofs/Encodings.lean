import Mathlib.Data.List.Forall2
import TypedArrays.Proofs.Canonical

/-! Runs of logic on boolean vectors that encode the same truth values by different bytes.

Zero is false and every other byte is true, so callers can store one truth value in many ways. Logic reads two parts
of a byte: `not`, `or` and `and` its truth, and `xor` its lowest bit. Take two workspaces whose vectors agree in what
the commands of a run read. Each command ends alike on both (`Together`): a name is missing, the output gets the
same bytes, or the sizes do not fit. So the answers agree along the whole run, and a name that was once written has
the same bytes in both workspaces from then on. -/

namespace TypedArrays

namespace Logic

/-! ### Bytes -/

/-- Two bytes encode one truth value. -/
def SameTruth (a b : UInt8) : Prop := a = 0 ↔ b = 0

/-- Two bytes have the same lowest bit. -/
def SameLowest (a b : UInt8) : Prop := a &&& 1 = b &&& 1

instance (a b : UInt8) : Decidable (SameTruth a b) := inferInstanceAs (Decidable (_ ↔ _))

instance (a b : UInt8) : Decidable (SameLowest a b) := inferInstanceAs (Decidable (_ = _))

theorem SameTruth.beq_zero {a b : UInt8} (h : SameTruth a b) : (a == 0) = (b == 0) := by
  rw [Bool.eq_iff_iff, beq_iff_eq, beq_iff_eq]
  exact h

theorem xor_and_one (a b : UInt8) : (a ^^^ b) &&& 1 = (a &&& 1) ^^^ (b &&& 1) := by
  refine UInt8.toBitVec_inj.mp (BitVec.eq_of_getElem_eq fun i hi => ?_)
  simp [Bool.and_xor_distrib_right]

/-- Negation and the allowed operators do not tell related bytes apart. -/
structure Blind (allowed : Logic → Prop) (R : UInt8 → UInt8 → Prop) : Prop where
  refl : ∀ b, R b b
  negate : ∀ a b, R a b → Logic.negate a = Logic.negate b
  apply : ∀ op, allowed op → ∀ a a' b b', R a a' → R b b' → op.apply a b = op.apply a' b'

theorem blind_sameTruth : Blind (· ≠ xor) SameTruth where
  refl _ := Iff.rfl
  negate _ _ h := congrArg byte h.beq_zero
  apply := by
    intro op hop a a' b b' ha hb
    cases op with
    | or => simp only [Logic.apply, bne, ha.beq_zero, hb.beq_zero]
    | xor => exact absurd rfl hop
    | and => simp only [Logic.apply, bne, ha.beq_zero, hb.beq_zero]

-- Truth alone does not settle `xor`.
example : SameTruth 2 1 ∧ xor.apply 2 0 ≠ xor.apply 1 0 := by decide

theorem blind_sameTruth_and_sameLowest : Blind (fun _ => True) fun a b => SameTruth a b ∧ SameLowest a b where
  refl b := ⟨Iff.rfl, rfl⟩
  negate a b h := blind_sameTruth.negate a b h.1
  apply := by
    intro op _ a a' b b' ha hb
    by_cases hop : op = xor
    · subst hop
      have hla : a &&& 1 = a' &&& 1 := ha.2
      have hlb : b &&& 1 = b' &&& 1 := hb.2
      simp only [Logic.apply, xor_and_one, hla, hlb]
    · exact blind_sameTruth.apply op hop a a' b b' ha.1 hb.1

end Logic

/-! ### Vectors -/

/-- Two buffers of one size with related bytes at every place. -/
structure Lanewise (R : UInt8 → UInt8 → Prop) (l r : Array UInt8) : Prop where
  size : l.size = r.size
  lane : ∀ i (hl : i < l.size) (hr : i < r.size), R l[i] r[i]

namespace Lanewise
variable {R : UInt8 → UInt8 → Prop} {l l' r r' : Array UInt8}

theorem refl (hrefl : ∀ b, R b b) (l : Array UInt8) : Lanewise R l l := ⟨rfl, fun _ _ _ => hrefl _⟩

theorem map_eq {g : UInt8 → UInt8} (hg : ∀ a b, R a b → g a = g b) (h : Lanewise R l l') : l.map g = l'.map g := by
  refine Array.ext (by simp [h.size]) fun i hi hi' => ?_
  rw [Array.size_map] at hi hi'
  rw [Array.getElem_map, Array.getElem_map]
  exact hg _ _ (h.lane i hi hi')

theorem zipWith_eq {g : UInt8 → UInt8 → UInt8} (hg : ∀ a a' b b', R a a' → R b b' → g a b = g a' b')
    (hl : Lanewise R l l') (hr : Lanewise R r r') : Array.zipWith g l r = Array.zipWith g l' r' := by
  refine Array.ext (by simp [hl.size, hr.size]) fun i hi hi' => ?_
  rw [Array.size_zipWith] at hi hi'
  rw [Array.getElem_zipWith, Array.getElem_zipWith]
  exact hg _ _ _ _ (hl.lane i (by omega) (by omega)) (hr.lane i (by omega) (by omega))

end Lanewise

namespace Vector
variable {R : UInt8 → UInt8 → Prop} {o o' l l' r r' : Vector}

/-- Boolean vectors of one size with related bytes at every place. -/
def Related (R : UInt8 → UInt8 → Prop) (v u : Vector) : Prop :=
  ∃ l r : Array UInt8, v = ofArray .boolean l ∧ u = ofArray .boolean r ∧ Lanewise R l r

/-- How an operation ends alike on two outputs: it writes the same bytes to both, or is refused for the same cause and
    leaves both as they were. -/
inductive Ends (o o' : Vector) : Written Vector → Written Vector → Prop where
  | completed (data : Array UInt8) : Ends o o' ⟨ofArray .boolean data, none⟩ ⟨ofArray .boolean data, none⟩
  | refused (cause : Fault) : Ends o o' (.refused o cause) (.refused o' cause)

theorem transform_ofBytes (loop : UnaryLoop) (g : UInt8 → UInt8) (o l : Array UInt8) :
    unaryWith (Storage.transform .boolean loop g) (ofArray .boolean o) (ofArray .boolean l) =
      if l.size = o.size then ⟨ofArray .boolean (l.map g), none⟩
      else .refused (ofArray .boolean o) (.lengthMismatch l.size o.size) := by
  split
  · rename_i hl
    exact transform_ofArray loop g hl
  · rename_i hl
    exact Form.unaryWith_eq (f := .vector).trans (if_neg hl)

theorem logic_ofBytes (op : Logic) (o l r : Array UInt8) :
    logic op (ofArray .boolean o) (ofArray .boolean l) (ofArray .boolean r) =
      if l.size = r.size then
        if l.size = o.size then ⟨ofArray .boolean (Array.zipWith op.apply l r), none⟩
        else .refused (ofArray .boolean o) (.lengthMismatch l.size o.size)
      else .refused (ofArray .boolean o) (.lengthMismatch l.size r.size) := by
  split
  · rename_i hr
    split
    · rename_i hl
      exact logic_ofArray op hl (hr.symm.trans hl)
    · rename_i hl
      exact Form.binaryWith_eq (f := .vector).trans ((if_pos hr).trans (if_neg hl))
  · rename_i hr
    exact Form.binaryWith_eq (f := .vector).trans (if_neg hr)

/-- Related operands have the same sizes, so the sizes fit for both or for neither. -/
theorem transform_ends (loop : UnaryLoop) {g : UInt8 → UInt8} (hg : ∀ a b, R a b → g a = g b) (ho : Related R o o')
    (hl : Related R l l') : Ends o o' (unaryWith (Storage.transform .boolean loop g) o l)
      (unaryWith (Storage.transform .boolean loop g) o' l') := by
  obtain ⟨o, o', rfl, rfl, ho⟩ := ho
  obtain ⟨l, l', rfl, rfl, hl⟩ := hl
  rw [transform_ofBytes, transform_ofBytes, ← ho.size, ← hl.size, ← hl.map_eq hg]
  split
  · exact .completed _
  · exact .refused _

theorem logic_ends {op : Logic} (hop : ∀ a a' b b', R a a' → R b b' → op.apply a b = op.apply a' b')
    (ho : Related R o o') (hl : Related R l l') (hr : Related R r r') :
    Ends o o' (logic op o l r) (logic op o' l' r') := by
  obtain ⟨o, o', rfl, rfl, ho⟩ := ho
  obtain ⟨l, l', rfl, rfl, hl⟩ := hl
  obtain ⟨r, r', rfl, rfl, hr⟩ := hr
  rw [logic_ofBytes, logic_ofBytes, ← ho.size, ← hl.size, ← hr.size, ← hl.zipWith_eq hop hr]
  split
  · split
    · exact .completed _
    · exact .refused _
  · exact .refused _

end Vector

namespace Workspace
variable {R : UInt8 → UInt8 → Prop} {allowed : Logic → Prop} {ws ws' : Workspace} {command : Command} {name : String}

/-! ### One command -/

/-- Workspaces of boolean vectors with the same names and sizes, and with related bytes at every place. -/
def Related (R : UInt8 → UInt8 → Prop) (ws ws' : Workspace) : Prop :=
  ∀ name, (ws.get? name = none ∧ ws'.get? name = none) ∨
    ∃ v u, ws.get? name = some (.ofVector v) ∧ ws'.get? name = some (.ofVector u) ∧ v.Related R u

/-- A logic command, with one of the allowed operators if it has one. -/
def Command.IsLogic (allowed : Logic → Prop) : Command → Prop
  | .not _ _ => True
  | .logic op _ _ _ => allowed op
  | .logicScalar op _ _ _ => allowed op
  | _ => False

/-- The name that an elementwise command writes. -/
def Command.output? : Command → Option String
  | .arithmetic _ _ _ out _ _ => some out
  | .negate _ _ out _ => some out
  | .not out _ => some out
  | .logic _ out _ _ => some out
  | .logicScalar _ out _ _ => some out
  | _ => none

/-- What a command does to two workspaces at once. -/
inductive Together (ws ws' : Workspace) (command : Command) : Answer × Workspace → Answer × Workspace → Prop where
  | missing (name : String) : Together ws ws' command (.missing name, ws) (.missing name, ws')
  | completed {out : String} (data : Array UInt8) (output : command.output? = some out) :
      Together ws ws' command
        (.written (.ofVector (.ofArray .boolean data)) none, ws.set out (some (.ofVector (.ofArray .boolean data))))
        (.written (.ofVector (.ofArray .boolean data)) none, ws'.set out (some (.ofVector (.ofArray .boolean data))))
  | refused {out : String} {o o' : Vector} (cause : Fault) (found : ws.get? out = some (.ofVector o))
      (found' : ws'.get? out = some (.ofVector o')) :
      Together ws ws' command
        (.written (.ofVector o) (some (.fault cause)), ws.set out (some (.ofVector o)))
        (.written (.ofVector o') (some (.fault cause)), ws'.set out (some (.ofVector o')))

/-- The answer of an effect and the workspace after it. -/
def conclude (ws : Workspace) : Effect → Answer × Workspace
  | .ok (answer, some (name, value)) => (answer, ws.set name value)
  | .ok (answer, none) => (answer, ws)
  | .error answer => (answer, ws)

theorem step_eq_conclude (ws : Workspace) (command : Command) : ws.step command = ws.conclude (ws.evaluate command) := by
  unfold step
  split <;> rename_i heq <;> rw [heq] <;> rfl

theorem Together.findForm {k k' : Vector → Effect} (hws : ws.Related R ws')
    (h : ∀ v u, ws.get? name = some (.ofVector v) → ws'.get? name = some (.ofVector u) → v.Related R u →
      Together ws ws' command (ws.conclude (k v)) (ws'.conclude (k' u))) :
    Together ws ws' command (ws.conclude (ws.findForm .vector name >>= k))
      (ws'.conclude (ws'.findForm .vector name >>= k')) := by
  rcases hws name with ⟨hnone, hnone'⟩ | ⟨v, u, hv, hu, hvu⟩
  · simp only [Workspace.findForm, find, hnone, hnone']
    exact .missing name
  · rw [findForm_of_found hv, findForm_of_found hu]
    exact h v u hv hu hvu

theorem Together.store {out : String} {o o' : Vector} {w w' : Written Vector} (houtput : command.output? = some out)
    (ho : ws.get? out = some (.ofVector o)) (ho' : ws'.get? out = some (.ofVector o')) (h : Vector.Ends o o' w w') :
    Together ws ws' command (ws.conclude (store out .vector w)) (ws'.conclude (store out .vector w')) := by
  cases h with
  | completed data => exact .completed data houtput
  | refused cause => exact .refused cause ho ho'

theorem step_together (hblind : Logic.Blind allowed R) (hws : ws.Related R ws') (hlogic : command.IsLogic allowed) :
    Together ws ws' command (ws.step command) (ws'.step command) := by
  rw [step_eq_conclude, step_eq_conclude]
  cases command with
  | not out lhs =>
    exact .findForm hws fun l l' _ _ hl => .findForm hws fun o o' ho ho' hoo =>
      .store rfl ho ho' (Vector.transform_ends .not hblind.negate hoo hl)
  | logic op out lhs rhs =>
    exact .findForm hws fun l l' _ _ hl => .findForm hws fun r r' _ _ hr => .findForm hws fun o o' ho ho' hoo =>
      .store rfl ho ho' (Vector.logic_ends (hblind.apply op hlogic) hoo hl hr)
  | logicScalar op out lhs byte =>
    -- The byte is the same in both runs, and related to itself.
    have hscalar : ∀ a b, R a b → op.apply a byte = op.apply b byte := fun a b hab =>
      hblind.apply op hlogic a b byte byte hab (hblind.refl byte)
    exact .findForm hws fun l l' _ _ hl => .findForm hws fun o o' ho ho' hoo =>
      .store rfl ho ho' (Vector.transform_ends .scalar hscalar hoo hl)
  | _ => exact hlogic.elim

/-! ### What a command keeps -/

/-- Answers that tell a caller the same, but for the bytes of an output that was not written. -/
inductive Answer.Agrees : Answer → Answer → Prop where
  | same (answer : Answer) : Agrees answer answer
  | refused (c d : Container) (cause : Fault) :
      Agrees (.written c (some (.fault cause))) (.written d (some (.fault cause)))

section Kept
variable {x x' : Answer × Workspace}

theorem Together.agrees (h : Together ws ws' command x x') : x.1.Agrees x'.1 := by
  cases h with
  | missing name => exact .same _
  | completed data output => exact .same _
  | refused cause found found' => exact .refused _ _ cause

theorem related_empty : Related R .empty .empty := fun _ => Or.inl ⟨rfl, rfl⟩

theorem Related.set {v u : Vector} (hws : ws.Related R ws') (h : v.Related R u) (out : String) :
    Related R (ws.set out (some (.ofVector v))) (ws'.set out (some (.ofVector u))) := by
  intro name
  rw [Names.get?_set, Names.get?_set]
  split
  · exact Or.inr ⟨v, u, rfl, rfl, h⟩
  · exact hws name

/-- To store what a name has already changes nothing. -/
theorem get?_set_found {out : String} {c : Container} (found : ws.get? out = some c) (name : String) :
    (ws.set out (some c)).get? name = ws.get? name := by
  rw [Names.get?_set]
  split
  · rename_i hname
    rw [hname, found]
  · rfl

theorem Together.related (hrefl : ∀ b, R b b) (hws : ws.Related R ws') (h : Together ws ws' command x x') :
    Related R x.2 x'.2 := by
  cases h with
  | missing name => exact hws
  | completed data output => exact hws.set ⟨data, data, rfl, rfl, .refl hrefl data⟩ _
  | refused cause found found' =>
    intro name
    rw [get?_set_found found, get?_set_found found']
    exact hws name

/-- Where two workspaces are the same, they stay the same. -/
theorem Together.same (h : Together ws ws' command x x') (hname : ws.get? name = ws'.get? name) :
    x.2.get? name = x'.2.get? name := by
  cases h with
  | missing _ => exact hname
  | completed data output => rw [Names.get?_set, Names.get?_set, hname]
  | refused cause found found' => rw [get?_set_found found, get?_set_found found', hname]

/-- A command that completes makes two workspaces the same at its output. -/
theorem Together.written {c : Container} (h : Together ws ws' command x x') (houtput : command.output? = some name)
    (hanswer : x.1 = .written c none) : x.2.get? name = x'.2.get? name := by
  cases h with
  | missing _ => cases hanswer
  | completed data output =>
    cases output.symm.trans houtput
    rw [Names.get?_set, Names.get?_set, if_pos rfl, if_pos rfl]
  | refused cause found found' => cases hanswer

end Kept

/-! ### Runs -/

/-- Two runs of the same commands cannot be told apart by their answers. Their last workspaces are related as the first
    ones are, and are the same at every name at which the first ones are, or which a command of the run has written. -/
structure SameRuns (R : UInt8 → UInt8 → Prop) (commands : List Command) (ws ws' : Workspace) : Prop where
  answers : List.Forall₂ Answer.Agrees (ws.run commands).1 (ws'.run commands).1
  related : Related R (ws.run commands).2 (ws'.run commands).2
  same : ∀ name, ws.get? name = ws'.get? name → (ws.run commands).2.get? name = (ws'.run commands).2.get? name
  written : ∀ (i : Nat) (command : Command) (name : String) (c : Container), commands[i]? = some command →
    command.output? = some name → (ws.run commands).1[i]? = some (.written c none) →
    (ws.run commands).2.get? name = (ws'.run commands).2.get? name

theorem sameRuns_nil (hws : ws.Related R ws') : SameRuns R [] ws ws' where
  answers := .nil
  related := hws
  same _ h := h
  written _ _ _ _ hcommand := by cases hcommand

theorem SameRuns.cons {rest : List Command} (hstep : Together ws ws' command (ws.step command) (ws'.step command))
    (hrest : SameRuns R rest (ws.step command).2 (ws'.step command).2) : SameRuns R (command :: rest) ws ws' where
  answers := .cons hstep.agrees hrest.answers
  related := hrest.related
  same name h := hrest.same name (hstep.same h)
  written := by
    intro i later name c hlater houtput hanswer
    cases i with
    | zero =>
      -- The first command makes the name the same, and the rest of the run keeps it so.
      cases hlater
      exact hrest.same name (hstep.written houtput (Option.some.inj hanswer))
    | succ i => exact hrest.written i later name c hlater houtput hanswer

theorem sameRuns_of_blind (hblind : Logic.Blind allowed R) {commands : List Command}
    (hlogic : ∀ command ∈ commands, command.IsLogic allowed) (hws : ws.Related R ws') : SameRuns R commands ws ws' := by
  induction commands generalizing ws ws' with
  | nil => exact sameRuns_nil hws
  | cons command rest ih =>
    obtain ⟨hfirst, hrest⟩ := List.forall_mem_cons.mp hlogic
    have hstep := step_together hblind hws hfirst
    exact .cons hstep (ih hrest (hstep.related hblind.refl hws))

/-- Take two workspaces of boolean vectors with the same names and sizes. If their bytes agree in being zero or not,
    no run of `not`, `or` and `and`, of vectors and with one byte, tells them apart. If their bytes also have the same
    lowest bits, no run of all logic commands does. -/
theorem logic_hides_encodings (commands : List Command) (ws ws' : Workspace) :
    ((∀ command ∈ commands, command.IsLogic (· ≠ .xor)) → ws.Related Logic.SameTruth ws' →
      SameRuns Logic.SameTruth commands ws ws') ∧
    ((∀ command ∈ commands, command.IsLogic fun _ => True) →
      ws.Related (fun a b => Logic.SameTruth a b ∧ Logic.SameLowest a b) ws' →
      SameRuns (fun a b => Logic.SameTruth a b ∧ Logic.SameLowest a b) commands ws ws') :=
  ⟨sameRuns_of_blind Logic.blind_sameTruth, sameRuns_of_blind Logic.blind_sameTruth_and_sameLowest⟩

/-- The first run writes one of its operands, is refused once, and then writes the other operand in place; only the
    name of the refused output keeps different bytes. The second run has `xor`, on even bytes. -/
theorem logic_hides_encodings_of_raw_bytes :
    let v := fun bytes : Array UInt8 => Container.ofVector (.ofArray .boolean bytes)
    let three := fun a b c : Array UInt8 =>
      ((Names.empty.set "a" (some (v a))).set "b" (some (v b))).set "c" (some (v c))
    let ws : Workspace := three #[2, 0] #[1, 4] #[3]
    let ws' : Workspace := three #[255, 0] #[8, 1] #[6]
    let commands : List Command := [.logic .and "b" "a" "b", .logic .or "c" "a" "b", .not "a" "a"]
    let even : Workspace := three #[2, 0] #[4, 1] #[6]
    let even' : Workspace := three #[4, 0] #[254, 7] #[6]
    let commands' : List Command := [.logic .xor "a" "a" "b", .logicScalar .xor "b" "a" 254]
    (ws.Related Logic.SameTruth ws' ∧ (ws.run commands).2.get? "a" = (ws'.run commands).2.get? "a" ∧
      (ws.run commands).2.get? "b" = (ws'.run commands).2.get? "b" ∧
      (ws.run commands).2.get? "c" = some (v #[3]) ∧ (ws'.run commands).2.get? "c" = some (v #[6])) ∧
    even.Related (fun a b => Logic.SameTruth a b ∧ Logic.SameLowest a b) even' ∧
      (even.run commands').2.get? "b" = (even'.run commands').2.get? "b" := by
  intro v three ws ws' commands even even' commands'
  have hthree : ∀ {R : UInt8 → UInt8 → Prop} {a a' b b' c c' : Array UInt8}, Lanewise R a a' → Lanewise R b b' →
      Lanewise R c c' → Related R (three a b c) (three a' b' c') := fun ha hb hc =>
    ((related_empty.set ⟨_, _, rfl, rfl, ha⟩ "a").set ⟨_, _, rfl, rfl, hb⟩ "b").set ⟨_, _, rfl, rfl, hc⟩ "c"
  have hws : ws.Related Logic.SameTruth ws' := hthree ⟨rfl, by decide⟩ ⟨rfl, by decide⟩ ⟨rfl, by decide⟩
  have heven : even.Related (fun a b => Logic.SameTruth a b ∧ Logic.SameLowest a b) even' :=
    hthree ⟨rfl, by decide⟩ ⟨rfl, by decide⟩ ⟨rfl, by decide⟩
  have hruns := (logic_hides_encodings commands ws ws').1 (by simp [commands, Command.IsLogic]) hws
  have hruns' := (logic_hides_encodings commands' even even').2 (by simp [commands', Command.IsLogic]) heven
  exact ⟨⟨hws, hruns.written 2 _ "a" _ rfl rfl rfl, hruns.written 0 _ "b" _ rfl rfl rfl, rfl, rfl⟩, heven,
    hruns'.written 1 _ "b" _ rfl rfl rfl⟩

end Workspace

end TypedArrays
