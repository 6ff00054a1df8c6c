import TypedArrays.Boundary.Step
import TypedArrays.Proofs.Engine

/-! What calls do to the heap.

`Changed` lists everything a completed call can do: nothing, add a well-formed container behind a fresh
handle, release a container, or replace one by a container of the same kind, size and shape. Every
invariant of heaps is an induction over `Reachable` by these four cases. -/

namespace TypedArrays.Boundary

/-! ### Looking up after a change -/

namespace Arena
variable {α : Type}

theorem get?_set_self {arena : Arena α} {i : Nat} {old : α} (h : arena.get? i = some old) (value : Option α) :
    (arena.set i value).get? i = value := by
  have hi : i < arena.cells.size := by
    by_cases hi : i < arena.cells.size
    · exact hi
    · simp [get?, hi] at h
  simp [get?, set, hi]

theorem get?_set_ne {arena : Arena α} {i j : Nat} (h : j ≠ i) (value : Option α) :
    (arena.set i value).get? j = arena.get? j := by
  simp only [get?, set]
  rw [Array.getElem?_setIfInBounds_ne h.symm]

theorem get?_push (arena : Arena α) (value : α) (j : Nat) :
    (arena.push value).get? j = if j = arena.cells.size then some value else arena.get? j := by
  simp only [get?, push, Array.getElem?_push]
  split <;> rfl

/-- What an index holds after a cell is changed, it held before, or it is the new value. -/
theorem get?_set_some {arena : Arena α} {i j : Nat} {value : Option α} {found : α}
    (h : (arena.set i value).get? j = some found) : (j = i ∧ value = some found) ∨ arena.get? j = some found := by
  by_cases hj : j = i
  · subst hj
    by_cases hi : j < arena.cells.size
    · exact Or.inl ⟨rfl, by simpa [get?, set, hi] using h⟩
    · simp [get?, set, hi] at h
  · exact Or.inr ((get?_set_ne hj value).symm.trans h)

end Arena

namespace Heap
variable {heap : Heap} {f g : Form}

@[simp] theorem arena_withArena_self (heap : Heap) (f : Form) (arena : Arena f.Carrier) :
    (heap.withArena f arena).arena f = arena := by
  cases f <;> rfl

theorem arena_withArena_ne (heap : Heap) (h : g ≠ f) (arena : Arena f.Carrier) :
    (heap.withArena f arena).arena g = heap.arena g := by
  cases f <;> cases g <;> first | rfl | exact absurd rfl h

theorem get?_set_self {p : Handle f} {old : f.Carrier} (h : heap.get? p = some old) (value : f.Carrier) :
    (heap.set p value).get? p = some value := by
  unfold get? set
  rw [arena_withArena_self]
  exact Arena.get?_set_self h (some value)

theorem index_ne {p q : Handle f} (h : q ≠ p) : q.index ≠ p.index := by
  intro hi
  cases p
  cases q
  cases hi
  exact h rfl

theorem get?_set_ne {p q : Handle f} (h : q ≠ p) (value : f.Carrier) :
    (heap.set p value).get? q = heap.get? q := by
  unfold get? set
  rw [arena_withArena_self]
  exact Arena.get?_set_ne (index_ne h) (some value)

theorem get?_erase_ne {p q : Handle f} (h : q ≠ p) : (heap.erase p).get? q = heap.get? q := by
  unfold get? erase
  rw [arena_withArena_self]
  exact Arena.get?_set_ne (index_ne h) none

theorem get?_set_form {p : Handle f} {q : Handle g} (h : g ≠ f) (value : f.Carrier) :
    (heap.set p value).get? q = heap.get? q := by
  unfold get? set
  rw [arena_withArena_ne heap h]

theorem get?_fresh (heap : Heap) (f : Form) : heap.get? (heap.fresh f) = none := by
  simp [get?, fresh, Arena.get?]

theorem get?_insert (heap : Heap) (value : f.Carrier) (q : Handle f) :
    (heap.insert value).get? q = if q = heap.fresh f then some value else heap.get? q := by
  have hindex : q = heap.fresh f ↔ q.index = (heap.arena f).cells.size := by
    cases q
    simp [fresh]
  unfold get? insert
  rw [arena_withArena_self, Arena.get?_push]
  simp only [hindex]

theorem get?_insert_form {q : Handle g} (h : g ≠ f) (value : f.Carrier) : (heap.insert value).get? q = heap.get? q := by
  unfold get? insert
  rw [arena_withArena_ne heap h]

theorem get?_withArena {arena : Arena f.Carrier} {q : Handle g} {found : g.Carrier}
    (h : (heap.withArena f arena).get? q = some found) :
    (∃ hf : f = g, arena.get? q.index = some (hf ▸ found)) ∨ heap.get? q = some found := by
  by_cases hf : f = g
  · subst hf
    refine Or.inl ⟨rfl, ?_⟩
    rw [get?, arena_withArena_self] at h
    exact h
  · refine Or.inr ?_
    rw [get?, arena_withArena_ne heap (Ne.symm hf)] at h
    exact h

/-! ### Completed calls -/

/-- What a completed call can do to the heap. -/
inductive Changed (heap : Heap) : Heap → Prop where
  | same : Changed heap heap
  | inserted {f : Form} {value : f.Carrier} (formed : f.WellFormed value) : Changed heap (heap.insert value)
  | erased {f : Form} (p : Handle f) : Changed heap (heap.erase p)
  | stored {f : Form} {p : Handle f} {old value : f.Carrier} (live : heap.get? p = some old)
      (alike : f.Alike value old) : Changed heap (heap.set p value)

section Calls
variable {entry : String} {value : Value} {after : Heap}

theorem nonNull_eq_ok {role : Role} {α : Type} {p : Option α} {a : α} (h : nonNull entry role p = .ok a) :
    p = some a := by
  cases p with
  | none => cases h
  | some b =>
    cases h
    rfl

theorem deref_eq_ok {p : Handle f} {c : f.Carrier} (h : heap.deref entry p = .ok c) : heap.get? p = some c := by
  unfold deref at h
  cases hp : heap.get? p with
  | none =>
    rw [hp] at h
    cases h
  | some d =>
    rw [hp] at h
    cases h
    rfl

theorem nonNull_some {role : Role} {α : Type} (a : α) : nonNull entry role (some a) = .ok a := rfl

theorem deref_of_live {p : Handle f} {c : f.Carrier} (h : heap.get? p = some c) : heap.deref entry p = .ok c := by
  unfold deref
  rw [h]
  rfl

/-- A live operand is found in its copy or in its place, which is then not that of the output. -/
theorem operand_of_live {p : Handle f} {c : f.Carrier} (h : heap.get? p = some c) (entry : String) (out : Handle f) :
    ∃ x, heap.operand entry out p = .ok x ∧ (heap.erase out).readOperand entry x = .ok c := by
  unfold operand
  by_cases hp : p = out
  · refine ⟨.copied c, ?_, rfl⟩
    rw [if_pos hp, deref_of_live h]
    rfl
  · refine ⟨.borrowed p, if_neg hp, ?_⟩
    exact deref_of_live ((get?_erase_ne hp).trans h)

/-- A two-operand call on live containers runs the operation on what they hold before the call. -/
theorem binary_of_live {run : (out lhs rhs : f.Carrier) → Written f.Carrier} {out lhs rhs : Handle f}
    {o l r : f.Carrier} (ho : heap.get? out = some o) (hl : heap.get? lhs = some l) (hr : heap.get? rhs = some r) :
    heap.binary entry run (some out) (some lhs) (some rhs) = heap.complete entry out (run o l r) := by
  obtain ⟨x, hx, hxl⟩ := operand_of_live hl entry out
  obtain ⟨y, hy, hyr⟩ := operand_of_live hr entry out
  simp only [binary, nonNull_some, bind, Except.bind, hx, hy, deref_of_live ho, hxl, hyr]
  rfl

theorem unary_of_live {run : (out lhs : f.Carrier) → Written f.Carrier} {out lhs : Handle f} {o l : f.Carrier}
    (ho : heap.get? out = some o) (hl : heap.get? lhs = some l) :
    heap.unary entry run (some out) (some lhs) = heap.complete entry out (run o l) := by
  obtain ⟨x, hx, hxl⟩ := operand_of_live hl entry out
  simp only [unary, nonNull_some, bind, Except.bind, hx, deref_of_live ho, hxl]
  rfl

theorem guarded_ok {α : Type} {checked : Except Abort α} {goOn : α → Reaction}
    (h : (Reaction.guarded checked goOn).result = .ok (value, after)) :
    ∃ a, checked = .ok a ∧ (goOn a).result = .ok (value, after) := by
  cases checked with
  | error cause => cases h
  | ok a => exact ⟨a, rfl, h⟩

/-- An operation is stored only when it completed. -/
theorem complete_ok {out : Handle f} {w : Written f.Carrier}
    (h : (heap.complete entry out w).result = .ok (value, after)) : w.halt = none ∧ after = heap.set out w.out := by
  unfold complete at h
  split at h
  · rename_i cause _
    cases cause <;> cases h
  · rename_i hw
    cases h
    exact ⟨hw, rfl⟩

theorem binary_ok {run : (out lhs rhs : f.Carrier) → Written f.Carrier} {out lhs rhs : Pointer f}
    (h : (heap.binary entry run out lhs rhs).result = .ok (value, after)) :
    ∃ p o l r, out = some p ∧ heap.get? p = some o ∧ (run o l r).halt = none ∧ after = heap.set p (run o l r).out := by
  obtain ⟨⟨p, w⟩, hw, h⟩ := guarded_ok h
  simp only [bind_eq_ok, pure, Except.pure, Except.ok.injEq, Prod.mk.injEq] at hw
  obtain ⟨p', hp, _, -, _, -, _, -, _, -, o, ho, l, -, r, -, rfl, rfl⟩ := hw
  obtain ⟨hw, rfl⟩ := complete_ok h
  exact ⟨p', o, l, r, nonNull_eq_ok hp, deref_eq_ok ho, hw, rfl⟩

theorem unary_ok {run : (out lhs : f.Carrier) → Written f.Carrier} {out lhs : Pointer f}
    (h : (heap.unary entry run out lhs).result = .ok (value, after)) :
    ∃ p o l, out = some p ∧ heap.get? p = some o ∧ (run o l).halt = none ∧ after = heap.set p (run o l).out := by
  obtain ⟨⟨p, w⟩, hw, h⟩ := guarded_ok h
  simp only [bind_eq_ok, pure, Except.pure, Except.ok.injEq, Prod.mk.injEq] at hw
  obtain ⟨p', hp, _, -, _, -, o, ho, l, -, rfl, rfl⟩ := hw
  obtain ⟨hw, rfl⟩ := complete_ok h
  exact ⟨p', o, l, nonNull_eq_ok hp, deref_eq_ok ho, hw, rfl⟩

/-- A two-operand call whose operation keeps its output alike changes the heap in this one place. -/
theorem Changed.of_binary {run : (out lhs rhs : f.Carrier) → Written f.Carrier} {out lhs rhs : Pointer f}
    (hrun : ∀ o l r, f.Alike (run o l r).out o) (h : (heap.binary entry run out lhs rhs).result = .ok (value, after)) :
    Changed heap after := by
  obtain ⟨p, o, l, r, -, ho, -, rfl⟩ := binary_ok h
  exact .stored ho (hrun o l r)

theorem Changed.of_unary {run : (out lhs : f.Carrier) → Written f.Carrier} {out lhs : Pointer f}
    (hrun : ∀ o l, f.Alike (run o l).out o) (h : (heap.unary entry run out lhs).result = .ok (value, after)) :
    Changed heap after := by
  obtain ⟨p, o, l, -, ho, -, rfl⟩ := unary_ok h
  exact .stored ho (hrun o l)

theorem Changed.of_inspect {p : Pointer f} {view : f.Carrier → Value}
    (h : (heap.inspect entry p view).result = .ok (value, after)) : Changed heap after := by
  simp only [inspect, Reaction.silent, bind_eq_ok, pure, Except.pure, Except.ok.injEq, Prod.mk.injEq] at h
  obtain ⟨_, -, _, -, -, rfl⟩ := h
  exact .same

theorem Changed.of_check {lhs rhs : Pointer f} (h : (heap.check entry lhs rhs).result = .ok (value, after)) :
    Changed heap after := by
  obtain ⟨⟨l, r⟩, -, h⟩ := guarded_ok h
  simp only at h
  split at h <;> cases h <;> exact .same

theorem Changed.of_compare {run : Vector → Vector → Except Fault Bool} {lhs rhs : Pointer .vector}
    (h : (heap.compare entry run lhs rhs).result = .ok (value, after)) : Changed heap after := by
  obtain ⟨⟨l, r⟩, -, h⟩ := guarded_ok h
  simp only at h
  split at h <;> cases h
  exact .same

theorem Changed.of_allocate {tag : Int} {make : Kind → Except Halt f.Carrier} {event : Kind → Event}
    (hmake : ∀ kind c, make kind = .ok c → f.WellFormed c)
    (h : (heap.allocate entry tag make event).result = .ok (value, after)) : Changed heap after := by
  unfold allocate at h
  split at h
  · cases h
  · split at h
    · rename_i cause _
      cases cause <;> cases h
    · rename_i c hc
      cases h
      exact .inserted (hmake _ c hc)

theorem Changed.of_free {p : Pointer f} (h : (heap.free entry p).result = .ok (value, after)) :
    Changed heap after := by
  cases p with
  | none =>
    cases h
    exact .same
  | some p =>
    obtain ⟨_, -, h⟩ := guarded_ok h
    cases h
    exact .erased p

theorem Changed.of_exchange {p : Pointer f} {stored : List Int}
    (h : (heap.exchange entry p stored).result = .ok (value, after)) : Changed heap after := by
  simp only [exchange, Reaction.silent, bind_eq_ok, pure, Except.pure, Except.ok.injEq, Prod.mk.injEq] at h
  obtain ⟨p', -, c, hc, -, rfl⟩ := h
  refine .stored (deref_eq_ok hc) (Form.withStorage_alike ⟨rfl, ?_⟩)
  simp [Storage.overwrite, Storage.size]

theorem fillCell_of_lt {content : Pointer .vector} {range : Interval .w32} {step : Word .w32} (h : step.val < 1) :
    heap.fillCell entry (some content) range step =
      ⟨[.rejected range step (.invalidStep step.val)], .ok (.cell .invalidStep content, heap)⟩ := by
  simp only [fillCell, nonNull_some, Reaction.guarded, range.stepRange_of_lt h]
  rfl

theorem fillCell_of_le {content : Pointer .vector} {range : Interval .w32} {step : Word .w32} (h : 1 ≤ step.val) :
    let vector : Vector := .ofArray .integer (Progression.ofBounds range.lower range.upper step).toArray
    heap.fillCell entry (some content) range step =
      ⟨[.materialized range step vector.size],
        .ok (.cell .ok (some (heap.fresh .vector)), heap.insert (f := .vector) vector)⟩ := by
  simp only [fillCell, nonNull_some, Reaction.guarded, range.stepRange_of_le h]

theorem Changed.of_fillCell {out : OutCell} {range : Interval .w32} {step : Word .w32}
    (h : (heap.fillCell entry out range step).result = .ok (value, after)) : Changed heap after := by
  obtain ⟨content, -, h⟩ := guarded_ok h
  split at h <;> cases h
  · exact .inserted trivial
  · exact .same

/-- Every completed call changes the heap in one of the four ways. -/
theorem call_changed {c : HandleCall} (h : (heap.call c).result = .ok (value, after)) : Changed heap after := by
  cases c with
  | newVector tag size => exact .of_allocate (f := .vector) (fun _ _ _ => trivial) h
  | newMatrix tag rows columns => exact .of_allocate (f := .matrix) (fun _ _ hm => Matrix.wellFormed_allocate hm) h
  | free form target => exact .of_free h
  | size target => exact .of_inspect h
  | rows target => exact .of_inspect h
  | columns target => exact .of_inspect h
  | kind form target => exact .of_inspect h
  | data form target stored => exact .of_exchange h
  | checkSame form lhs rhs => exact .of_check h
  | arithmetic form op out lhs rhs => exact .of_binary (fun _ _ _ => Form.arithmetic_alike ..) h
  | negate form out lhs => exact .of_unary (fun _ _ => Form.negate_alike ..) h
  | not out lhs => exact .of_unary (f := .vector) Vector.not_alike h
  | logic op out lhs rhs => exact .of_binary (f := .vector) (Vector.logic_alike op) h
  | logicScalar op out lhs rhs => exact .of_unary (f := .vector) (Vector.logicScalar_alike op rhs) h
  | equal lhs rhs => exact .of_compare h
  | notEqual lhs rhs => exact .of_compare h
  | interval range =>
    cases h
    exact .same
  | intervalCombine op lhs rhs =>
    simp only [call, Reaction.silent] at h
    split at h <;> cases h
    exact .same
  | intervalNegate range =>
    cases h
    exact .same
  | intervalEqual lhs rhs =>
    cases h
    exact .same
  | intervalNotEqual lhs rhs =>
    cases h
    exact .same
  | intervalBy out range step => exact .of_fillCell h
  | statusMessage code =>
    cases h
    exact .same
  | startLog =>
    cases h
    exact .same

end Calls

/-! ### Reachable heaps -/

/-- The heaps that completed calls lead to. -/
inductive Reachable : Heap → Prop where
  | empty : Reachable .empty
  | call {heap after : Heap} {c : HandleCall} {value : Value} (reached : Reachable heap)
      (completed : (heap.call c).result = .ok (value, after)) : Reachable after

/-- Every live container is well formed. -/
def WellFormed (heap : Heap) : Prop :=
  ∀ {f : Form} {p : Handle f} {c : f.Carrier}, heap.get? p = some c → f.WellFormed c

theorem WellFormed.changed {after : Heap} (h : heap.WellFormed) (hc : Changed heap after) : after.WellFormed := by
  intro g q c hq
  cases hc with
  | same => exact h hq
  | @inserted f value formed =>
    obtain ⟨rfl, hq⟩ | hq := get?_withArena hq
    · rw [Arena.get?_push] at hq
      split at hq
      · cases hq
        exact formed
      · exact h (p := q) hq
    · exact h hq
  | @erased f p =>
    obtain ⟨rfl, hq⟩ | hq := get?_withArena hq
    · obtain ⟨-, hc⟩ | hq := Arena.get?_set_some hq
      · cases hc
      · exact h (p := q) hq
    · exact h hq
  | @stored f p old value live alike =>
    obtain ⟨rfl, hq⟩ | hq := get?_withArena hq
    · obtain ⟨-, hc⟩ | hq := Arena.get?_set_some hq
      · cases hc
        exact (h live).of_alike alike
      · exact h (p := q) hq
    · exact h hq

theorem Reachable.wellFormed (h : Reachable heap) : heap.WellFormed := by
  induction h with
  | empty =>
    intro f p c hc
    cases f <;> simp [get?, arena, Heap.empty, Arena.empty, Arena.get?] at hc
  | call _ completed ih => exact ih.changed (call_changed completed)

/-! ### Runs of calls -/

/-- The heap after a list of calls, or the position of the call that ended the program and why. -/
def run (heap : Heap) : List HandleCall → Except (Nat × Abort) Heap
  | [] => .ok heap
  | c :: rest =>
    match (heap.call c).result with
    | .ok (_, after) => (run after rest).mapError fun (position, cause) => (position + 1, cause)
    | .error cause => .error (0, cause)

theorem Reachable.run (h : Reachable heap) {calls : List HandleCall} {after : Heap}
    (hrun : heap.run calls = .ok after) : Reachable after := by
  induction calls generalizing heap with
  | nil =>
    cases hrun
    exact h
  | cons c rest ih =>
    unfold Heap.run at hrun
    split at hrun
    · rename_i value next hc
      exact ih (.call h hc) (mapError_eq_ok.mp hrun)
    · cases hrun

end Heap

end TypedArrays.Boundary
