import TypedArrays.Boundary.Script
import TypedArrays.Proofs.Boundary.Ending

/-! What calls report, and how they end the program.

A call reports one event at most, and an error exactly if it aborts over invalid operands. A run ends at its
first abort, so an error is the last event of a run. -/

namespace TypedArrays.Boundary

/-! ### Texts -/

/-- The text of an abort over invalid operands. -/
def refusalText (function error : String) : String :=
  "called `" ++ function ++ "` with invalid operands: " ++ error

/-- The first characters of a text, as many as tell an abort over invalid operands from a trap. -/
def opening (text : String) : List Char := text.toList.take 9

theorem opening_append {s : String} (h : 9 ≤ s.toList.length) (t : String) : opening (s ++ t) = opening s := by
  rw [opening, String.toList_append, List.take_append_of_le_length h, opening]

theorem Call.entry_eq {P : Form → Type} {Cell : Type} (c : Call P Cell) : ∃ rest, c.entry = "dash_" ++ rest := by
  cases c with
  | free | kind | data | checkSame | negate => exact ⟨_, String.append_assoc ..⟩
  | arithmetic form op _ _ _ =>
    refine ⟨form.name ++ "_" ++ op.name ++ "_" ++ form.name, ?_⟩
    show "dash_" ++ form.name ++ "_" ++ op.name ++ "_" ++ form.name = _
    simp only [String.append_assoc]
  | logic op _ _ _ => exact ⟨"bool_vector_" ++ op.name ++ "_vector", by cases op <;> rfl⟩
  | logicScalar op _ _ _ => exact ⟨"bool_vector_" ++ op.name ++ "_scalar", by cases op <;> rfl⟩
  | intervalCombine op _ _ => exact ⟨"interval_" ++ op.name, by cases op <;> rfl⟩
  | newVector => exact ⟨"vector_new", rfl⟩
  | newMatrix => exact ⟨"matrix_new", rfl⟩
  | size => exact ⟨"vector_size", rfl⟩
  | rows => exact ⟨"matrix_rows", rfl⟩
  | columns => exact ⟨"matrix_columns", rfl⟩
  | not => exact ⟨"bool_vector_not", rfl⟩
  | equal => exact ⟨"bool_vector_eq", rfl⟩
  | notEqual => exact ⟨"bool_vector_ne", rfl⟩
  | interval => exact ⟨"interval_new", rfl⟩
  | intervalNegate => exact ⟨"interval_negate", rfl⟩
  | intervalEqual => exact ⟨"interval_eq", rfl⟩
  | intervalNotEqual => exact ⟨"interval_ne", rfl⟩
  | intervalBy => exact ⟨"interval_by", rfl⟩
  | statusMessage => exact ⟨"status_message", rfl⟩
  | startLog => exact ⟨"runtime_init", rfl⟩

theorem opening_refusalText (c : HandleCall) (error : String) :
    opening (refusalText c.entry error) = "called `d".toList := by
  obtain ⟨rest, hrest⟩ := c.entry_eq
  rw [refusalText, hrest, ← String.append_assoc, String.append_assoc, String.append_assoc]
  exact opening_append (s := "called `" ++ "dash_") (by decide) _

theorem opening_trap_ne (trap : Trap) : opening trap.message ≠ "called `d".toList := by
  cases trap with
  | divideByZero => exact ne_of_beq_false rfl
  | divideOverflow => exact ne_of_beq_false rfl
  | remainderByZero => exact ne_of_beq_false rfl
  | multiplyOverflow => exact ne_of_beq_false rfl
  | capacityOverflow => exact ne_of_beq_false rfl
  | binaryLengths out lhs rhs =>
    change opening (_ ++ _ ++ _ ++ _ ++ _ ++ _) ≠ _
    rw [String.append_assoc, String.append_assoc, String.append_assoc, String.append_assoc]
    rw [opening_append (by decide)]
    exact ne_of_beq_false rfl
  | unaryLengths loop out lhs =>
    change opening (_ ++ _ ++ _ ++ _ ++ _ ++ _) ≠ _
    rw [String.append_assoc, String.append_assoc, String.append_assoc, String.append_assoc]
    rw [opening_append (by decide)]
    exact ne_of_beq_false rfl

theorem Abort.message_nullPointer_ne (entry : String) (role : Role) (error : String) :
    (Abort.nullPointer entry role).message ≠ refusalText entry error := by
  intro h
  have h := congrArg String.toList h
  cases role <;> simp [Abort.message, refusalText, Role.text] at h

theorem Abort.message_dangling_ne (entry error : String) :
    (Abort.dangling entry).message ≠ refusalText entry error := by
  intro h
  have h := congrArg String.toList h
  simp [Abort.message, refusalText] at h

/-! ### The discipline of one call -/

theorem Call.Reports.shape {c : HandleCall} {value : Value} {events : List Event} (h : c.Reports value events) :
    events = [] ∨ ∃ e, events = [e] ∧ e.level ≠ .error := by
  cases c with
  | newVector tag size =>
    obtain ⟨kind, rfl⟩ := h
    exact Or.inr ⟨_, rfl, nofun⟩
  | newMatrix tag rows columns =>
    obtain ⟨kind, rfl⟩ := h
    exact Or.inr ⟨_, rfl, nofun⟩
  | free form target =>
    cases target with
    | none => exact Or.inl h
    | some target => exact Or.inr ⟨_, h, nofun⟩
  | checkSame form lhs rhs =>
    obtain ⟨-, rfl⟩ | ⟨cause, -, rfl⟩ := h
    · exact Or.inl rfl
    · exact Or.inr ⟨_, rfl, nofun⟩
  | intervalBy out range step =>
    obtain ⟨e, rfl, hlevel⟩ := h
    exact Or.inr ⟨e, rfl, by rw [hlevel]; nofun⟩
  | _ => exact Or.inl h

/-- Arithmetic, logic, accessors and intervals: the calls that complete without an event. -/
def Call.isQuiet : HandleCall → Bool
  | .newVector _ _ | .newMatrix _ _ _ | .free _ _ | .checkSame _ _ _ | .intervalBy _ _ _ => false
  | _ => true

theorem Call.Reports.of_isQuiet {c : HandleCall} {value : Value} {events : List Event} (h : c.Reports value events)
    (hquiet : c.isQuiet = true) : events = [] := by
  cases c with
  | newVector | newMatrix | free | checkSame | intervalBy => cases hquiet
  | _ => exact h

/-- What a call may report, given how it ended. -/
structure Disciplined (c : HandleCall) (r : Reaction) : Prop where
  single : r.events.length ≤ 1
  /-- An error is reported exactly by the calls that abort over invalid operands. -/
  error_iff : (∃ e ∈ r.events, e.level = .error) ↔
    ∃ abort error, r.result = .error abort ∧ abort.message = refusalText c.entry error
  /-- The text of the abort is made of the fields of the event. -/
  text : ∀ e ∈ r.events, e.level = .error → ∃ abort function error, r.result = .error abort ∧
    e.fields.lookup "function" = some function ∧ e.fields.lookup "error" = some error ∧
      abort.message = refusalText function error
  /-- All other aborts go without a word. -/
  silent : ∀ abort, r.result = .error abort → (∀ error, abort.message ≠ refusalText c.entry error) → r.events = []
  /-- The first null pointer is named, whatever is behind the other pointers. -/
  null_iff : ∀ role, r.result = .error (.nullPointer c.entry role) ↔ firstNull c.pointers = some role
  check : ∀ form lhs rhs, c = .checkSame form lhs rhs → ∀ value after, r.result = .ok (value, after) →
    ∃ status : Status, value = .number status.code ∧ ((∃ e ∈ r.events, e.level = .debug) ↔ status ≠ .ok)
  stepped : ∀ cell range step, c = .intervalBy (some cell) range step → ∃ e, r.events = [e] ∧ e.level = .debug
  quiet : c.isQuiet = true → ∀ value after, r.result = .ok (value, after) → r.events = []

namespace Ended
variable {c : HandleCall} {r : Reaction}

theorem single (h : Ended c.entry (firstNull c.pointers) c.Reports r) : r.events.length ≤ 1 := by
  cases h with
  | null | dangling | trapped => exact Nat.zero_le 1
  | refused => exact Nat.le_refl 1
  | completed _ reports =>
    obtain h | ⟨e, h, -⟩ := reports.shape
    · exact h ▸ Nat.zero_le 1
    · exact h ▸ Nat.le_refl 1

theorem abort_cases (h : Ended c.entry (firstNull c.pointers) c.Reports r) {abort : Abort}
    (habort : r.result = .error abort) :
    (r.events = [] ∧ ∀ error, abort.message ≠ refusalText c.entry error) ∨
      ∃ cause, r.events = [.invalidOperands c.entry cause] ∧ abort = .invalidOperands c.entry cause := by
  cases h with
  | null =>
    cases habort
    exact Or.inl ⟨rfl, Abort.message_nullPointer_ne _ _⟩
  | dangling =>
    cases habort
    exact Or.inl ⟨rfl, Abort.message_dangling_ne _⟩
  | trapped _ trap =>
    cases habort
    exact Or.inl ⟨rfl, fun error h => opening_trap_ne trap ((congrArg opening h).trans (opening_refusalText c error))⟩
  | refused _ cause =>
    cases habort
    exact Or.inr ⟨cause, rfl, rfl⟩
  | completed => cases habort

theorem aborts_of_error (h : Ended c.entry (firstNull c.pointers) c.Reports r) {e : Event} (he : e ∈ r.events)
    (hlevel : e.level = .error) : ∃ cause, e = .invalidOperands c.entry cause ∧
      r.result = .error (.invalidOperands c.entry cause) := by
  cases h with
  | null | dangling | trapped => cases he
  | refused _ cause => exact ⟨cause, List.mem_singleton.mp he, rfl⟩
  | completed _ reports =>
    obtain h | ⟨e', h, hne⟩ := reports.shape
    · rw [h] at he
      cases he
    · rw [h] at he
      exact absurd (List.mem_singleton.mp he ▸ hlevel) hne

theorem null_iff (h : Ended c.entry (firstNull c.pointers) c.Reports r) (role : Role) :
    r.result = .error (.nullPointer c.entry role) ↔ firstNull c.pointers = some role := by
  cases h with
  | null found =>
    rw [found]
    exact ⟨fun h => by cases h; rfl, fun h => by cases h; rfl⟩
  | dangling found | trapped found _ | refused found _ | completed found _ =>
    rw [found]
    exact ⟨nofun, nofun⟩

theorem reports (h : Ended c.entry (firstNull c.pointers) c.Reports r) {value : Value} {after : Heap}
    (hdone : r.result = .ok (value, after)) : c.Reports value r.events := by
  cases h with
  | null | dangling | trapped | refused => cases hdone
  | completed _ reports =>
    cases hdone
    exact reports

end Ended

theorem Call.Reports.check {form : Form} {lhs rhs : Pointer form} {value : Value} {events : List Event}
    (h : Call.Reports (.checkSame form lhs rhs) value events) :
    ∃ status : Status, value = .number status.code ∧ ((∃ e ∈ events, e.level = .debug) ↔ status ≠ .ok) := by
  obtain ⟨hvalue, rfl⟩ | ⟨cause, hvalue, rfl⟩ := h
  · exact ⟨.ok, hvalue, fun ⟨_, he, _⟩ => absurd he List.not_mem_nil, fun h => absurd rfl h⟩
  · exact ⟨cause.status, hvalue, fun _ => cause.status_ne_ok, fun _ => ⟨_, List.mem_singleton.mpr rfl, rfl⟩⟩

theorem call_disciplined (heap : Heap) (c : HandleCall) : Disciplined c (heap.call c) := by
  have ended := call_ended heap c
  refine ⟨ended.single, ⟨?_, ?_⟩, ?_, ?_, ended.null_iff, ?_, ?_, ?_⟩
  · rintro ⟨e, he, hlevel⟩
    obtain ⟨cause, -, hresult⟩ := ended.aborts_of_error he hlevel
    exact ⟨_, cause.message, hresult, rfl⟩
  · rintro ⟨abort, error, hresult, htext⟩
    obtain ⟨-, hne⟩ | ⟨cause, hevents, -⟩ := ended.abort_cases hresult
    · exact absurd htext (hne error)
    · exact ⟨_, hevents ▸ List.mem_singleton.mpr rfl, rfl⟩
  · intro e he hlevel
    obtain ⟨cause, rfl, hresult⟩ := ended.aborts_of_error he hlevel
    exact ⟨_, c.entry, cause.message, hresult, rfl, rfl, rfl⟩
  · intro abort hresult hne
    obtain ⟨hevents, -⟩ | ⟨cause, -, rfl⟩ := ended.abort_cases hresult
    · exact hevents
    · exact absurd rfl (hne cause.message)
  · rintro form lhs rhs rfl value after hdone
    exact (ended.reports hdone).check
  · rintro cell range step rfl
    obtain ⟨e, value, after, h, hlevel⟩ := fillCell_some heap "dash_interval_by" cell range step
    exact ⟨e, congrArg Reaction.events h, hlevel⟩
  · intro hquiet value after hdone
    exact (ended.reports hdone).of_isQuiet hquiet

/-! ### Runs -/

namespace Script

/-- The answer to a call, by what the call does to a heap. -/
inductive Answers (heap : Heap) (c : HandleCall) : Answer → Prop where
  | completed {value : Value} {after : Heap} (done : (heap.call c).result = .ok (value, after)) :
      Answers heap c (.completed (State.display after value) (heap.call c).events)
  | aborted {cause : Abort} (failed : (heap.call c).result = .error cause) :
      Answers heap c (.aborted cause (heap.call c).events)

namespace Answer

def isAbort : Answer → Bool
  | .aborted _ _ => true
  | _ => false

/-- An answer that a statement can get: that its names are not found, or what comes of its call. -/
def Made (a : Answer) : Prop := (∃ why, a = .refused why) ∨ ∃ heap c, Answers heap c a

theorem Made.length_events {a : Answer} (h : a.Made) : a.events.length ≤ 1 := by
  obtain ⟨why, rfl⟩ | ⟨heap, c, h⟩ := h
  · exact Nat.zero_le 1
  · cases h with
    | completed | aborted => exact (call_ended heap c).single

theorem Made.level_ne_error {a : Answer} (h : a.Made) (hgoes : a.isAbort = false) :
    ∀ e ∈ a.events, e.level ≠ .error := by
  obtain ⟨why, rfl⟩ | ⟨heap, c, h⟩ := h
  · exact fun e he => absurd he List.not_mem_nil
  · cases h with
    | completed done =>
      intro e he hlevel
      obtain ⟨cause, -, hresult⟩ := (call_ended heap c).aborts_of_error he hlevel
      rw [done] at hresult
      cases hresult
    | aborted => cases hgoes

end Answer

theorem State.step_made (s : State) (statement : Statement) :
    (s.step statement).1.Made ∧ (s.step statement).1.isAbort = (s.step statement).2.isNone := by
  unfold step
  split
  · rename_i why _
    exact ⟨Or.inl ⟨why, rfl⟩, rfl⟩
  · rename_i call _
    dsimp only
    split
    · rename_i failed
      exact ⟨Or.inr ⟨s.heap, call, .aborted failed⟩, rfl⟩
    · rename_i done
      exact ⟨Or.inr ⟨s.heap, call, .completed done⟩, rfl⟩

/-- The events of a run, in order, and the one of giving up after it. -/
def log (surrender : Option Int) (run : List Answer × Bool) : List Event :=
  run.1.flatMap Answer.events ++ if run.2 then [] else (surrender.map Event.surrendered).toList

structure EndsAtAbort (run : List Answer × Bool) : Prop where
  made : ∀ a ∈ run.1, a.Made
  goes : ∀ a ∈ run.1.dropLast, a.isAbort = false
  aborted_eq : run.2 = run.1.any Answer.isAbort

theorem State.run_endsAtAbort (s : State) (statements : List Statement) : EndsAtAbort (s.run statements) := by
  induction statements generalizing s with
  | nil => exact ⟨List.forall_mem_nil _, List.forall_mem_nil _, rfl⟩
  | cons statement rest ih =>
    obtain ⟨made, hends⟩ := s.step_made statement
    unfold run
    cases hstep : s.step statement with | mk answer next
    rw [hstep] at made hends
    cases next with
    | none => exact ⟨List.forall_mem_singleton.mpr made, List.forall_mem_nil _, by simpa using hends.symm⟩
    | some after =>
      obtain ⟨hmade, hgoes, haborted⟩ := ih after
      refine ⟨?_, ?_, ?_⟩
      · exact List.forall_mem_cons.mpr ⟨made, hmade⟩
      · cases hrest : (after.run rest).1 with
        | nil => simp [hrest]
        | cons a as =>
          rw [hrest] at hgoes
          simp only [hrest, List.dropLast_cons_cons]
          exact List.forall_mem_cons.mpr ⟨hends, hgoes⟩
      · simpa [hends] using haborted

theorem error_last {events : List Event} (h : ∀ e ∈ events.dropLast, e.level ≠ .error) :
    (events.filter (·.level = .error)).length ≤ 1 ∧ ∀ e ∈ events, e.level = .error → events.getLast? = some e := by
  obtain rfl | ⟨before, last, rfl⟩ := events.eq_nil_or_concat
  · exact ⟨Nat.zero_le 1, fun e he => absurd he List.not_mem_nil⟩
  rw [List.concat_eq_append] at h ⊢
  rw [List.dropLast_concat] at h
  constructor
  · have hbefore : before.filter (·.level = .error) = [] := by simpa using h
    rw [List.filter_append, hbefore, List.nil_append]
    exact List.length_filter_le _ [last]
  · intro e he hlevel
    rw [List.getLast?_concat]
    obtain he | he := List.mem_append.mp he
    · exact absurd hlevel (h e he)
    · rw [List.mem_singleton.mp he]

theorem mem_of_mem_dropLast_append {events last : List Event} (h : last.length ≤ 1) {e : Event}
    (he : e ∈ (events ++ last).dropLast) : e ∈ events := by
  match last with
  | [] =>
    rw [List.append_nil] at he
    exact List.dropLast_subset _ he
  | [_] =>
    rw [List.dropLast_concat] at he
    exact he
  | _ :: _ :: _ => simp at h

namespace EndsAtAbort
variable {run : List Answer × Bool}

theorem level_ne_error (h : EndsAtAbort run) (hgoes : run.2 = false) :
    ∀ e ∈ run.1.flatMap Answer.events, e.level ≠ .error := by
  intro e he
  obtain ⟨a, ha, he⟩ := List.mem_flatMap.mp he
  have hall := h.aborted_eq.symm.trans hgoes
  exact (h.made a ha).level_ne_error (by simpa using List.any_eq_false.mp hall a ha) e he

theorem error_dropLast (h : EndsAtAbort run) (surrender : Option Int) :
    ∀ e ∈ (log surrender run).dropLast, e.level ≠ .error := by
  intro e he
  cases haborted : run.2 with
  | false =>
    -- Nothing aborted: neither the calls nor giving up leave an error.
    obtain he | he := List.mem_append.mp (List.dropLast_subset _ he)
    · exact h.level_ne_error haborted e he
    · rw [haborted] at he
      cases surrender with
      | none => cases he
      | some code =>
        rw [List.mem_singleton.mp he]
        nofun
  | true =>
    -- The answer that aborted is the last one, and it carries the last event if it carries any.
    obtain ⟨made, goes, -⟩ := h
    rw [log, haborted, if_pos rfl, List.append_nil] at he
    obtain hnil | ⟨before, last, hrun⟩ := run.1.eq_nil_or_concat
    · rw [hnil] at he
      cases he
    rw [hrun, List.concat_eq_append] at made goes he
    rw [List.dropLast_concat] at goes
    rw [List.flatMap_append, List.flatMap_singleton] at he
    have hlast := made last (List.mem_append_right _ (List.mem_singleton.mpr rfl))
    have hbefore := mem_of_mem_dropLast_append hlast.length_events he
    obtain ⟨a, ha, he⟩ := List.mem_flatMap.mp hbefore
    exact (made a (List.mem_append_left _ ha)).level_ne_error (goes a ha) e he

end EndsAtAbort

/-- A run that ends at its first abort, and whose log has at most one error, at its end. -/
structure FailsFast (surrender : Option Int) (run : List Answer × Bool) : Prop extends EndsAtAbort run where
  errors_le : ((log surrender run).filter (·.level = .error)).length ≤ 1
  error_last : ∀ e ∈ log surrender run, e.level = .error → (log surrender run).getLast? = some e

theorem State.run_failsFast (s : State) (statements : List Statement) (surrender : Option Int) :
    FailsFast surrender (s.run statements) := by
  have ends := s.run_endsAtAbort statements
  obtain ⟨herrors, hlast⟩ := error_last (ends.error_dropLast surrender)
  exact ⟨ends, herrors, hlast⟩

/-- Every call keeps to its discipline, on any heap. Every run of a script ends at its first abort, and its
    log has at most one error, which comes last. -/
theorem logs_and_fails_fast :
    (∀ (heap : Heap) (c : HandleCall), Disciplined c (heap.call c)) ∧
    ∀ (s : State) (statements : List Statement) (surrender : Option Int),
      FailsFast surrender (s.run statements) :=
  ⟨call_disciplined, State.run_failsFast⟩

/-- A vector of integers and a vector of reals are made; their sum is refused, and what follows is not done. -/
theorem logs_and_fails_fast_of_mixed_kinds :
    let run := State.initial.run
      [⟨.newVector 3 1, some "n"⟩, ⟨.newVector 4 1, some "x"⟩,
        ⟨.arithmetic .vector .add (some "n") (some "n") (some "x"), none⟩, ⟨.size (some "n"), none⟩]
    let refusal : Event := .invalidOperands "dash_vector_add_vector" (.kindMismatch .integer .real)
    run.2 = true ∧ refusal.level = .error ∧ (log (some 4) run).getLast? = some refusal := by
  intro run refusal
  have hlog : log (some 4) run = [.allocatedVector .integer 1, .allocatedVector .real 1, refusal] := rfl
  obtain ⟨-, runs⟩ := logs_and_fails_fast
  have hmem : refusal ∈ log (some 4) run := by
    rw [hlog]
    exact List.mem_of_getLast? rfl
  exact ⟨rfl, rfl, (runs .initial _ (some 4)).error_last refusal hmem rfl⟩

end Script

end TypedArrays.Boundary
