import TypedArrays.Proofs.Boundary.Heap

/-! Calls with an output as operations on a snapshot.

A call with an output names two or three handles, and any of them may be the same. What it does is what
the operation does on the contents that these handles have before the call, taken as separate values.
Only the container behind the output changes. -/

namespace TypedArrays.Boundary

/-- A call with an output, on handles of one form. -/
inductive Writing : Form → Type where
  | arithmetic {f : Form} (op : Arithmetic) (out lhs rhs : Handle f) : Writing f
  | negate {f : Form} (out lhs : Handle f) : Writing f
  | not (out lhs : Handle .vector) : Writing .vector
  | logic (op : Logic) (out lhs rhs : Handle .vector) : Writing .vector
  | logicScalar (op : Logic) (out lhs : Handle .vector) (rhs : UInt8) : Writing .vector

namespace Writing
variable {f : Form}

def call : {f : Form} → Writing f → HandleCall
  | f, arithmetic op out lhs rhs => .arithmetic f op (some out) (some lhs) (some rhs)
  | f, negate out lhs => .negate f (some out) (some lhs)
  | _, not out lhs => .not (some out) (some lhs)
  | _, logic op out lhs rhs => .logic op (some out) (some lhs) (some rhs)
  | _, logicScalar op out lhs rhs => .logicScalar op (some out) (some lhs) rhs

def out : Writing f → Handle f
  | arithmetic _ out _ _ => out
  | negate out _ => out
  | not out _ => out
  | logic _ out _ _ => out
  | logicScalar _ out _ _ => out

def handles : Writing f → List (Handle f)
  | arithmetic _ out lhs rhs => [out, lhs, rhs]
  | negate out lhs => [out, lhs]
  | not out lhs => [out, lhs]
  | logic _ out lhs rhs => [out, lhs, rhs]
  | logicScalar _ out lhs _ => [out, lhs]

/-- The operation of a call, on what the handles hold. -/
def operation : {f : Form} → Writing f → (held : Handle f → f.Carrier) → Written f.Carrier
  | f, arithmetic op out lhs rhs, held => f.arithmetic none op (held out) (held lhs) (held rhs)
  | f, negate out lhs, held => f.negate none (held out) (held lhs)
  | _, not out lhs, held => Vector.not (held out) (held lhs)
  | _, logic op out lhs rhs, held => Vector.logic op (held out) (held lhs) (held rhs)
  | _, logicScalar op out lhs rhs, held => Vector.logicScalar op (held out) (held lhs) rhs

theorem out_mem_handles (w : Writing f) : w.out ∈ w.handles := by
  cases w <;> exact List.mem_cons_self

end Writing

namespace Heap
variable {heap : Heap} {f : Form}

/-- Whichever handles are the same, a call hands the contents before it to its operation. -/
theorem call_of_held {w : Writing f} {held : Handle f → f.Carrier}
    (live : ∀ p ∈ w.handles, heap.get? p = some (held p)) :
    heap.call w.call = heap.complete w.call.entry w.out (w.operation held) := by
  cases w with
  | arithmetic op out lhs rhs =>
    simp only [Writing.handles, List.forall_mem_cons] at live
    exact binary_of_live live.1 live.2.1 live.2.2.1
  | negate out lhs =>
    simp only [Writing.handles, List.forall_mem_cons] at live
    exact unary_of_live live.1 live.2.1
  | not out lhs =>
    simp only [Writing.handles, List.forall_mem_cons] at live
    exact unary_of_live (f := .vector) live.1 live.2.1
  | logic op out lhs rhs =>
    simp only [Writing.handles, List.forall_mem_cons] at live
    exact binary_of_live (f := .vector) live.1 live.2.1 live.2.2.1
  | logicScalar op out lhs rhs =>
    simp only [Writing.handles, List.forall_mem_cons] at live
    exact unary_of_live (f := .vector) live.1 live.2.1

theorem complete_of_halt {entry : String} {p : Handle f} {w : Written f.Carrier} {cause : Halt}
    (h : w.halt = some cause) : heap.complete entry p w = .halted entry cause := by
  unfold complete
  rw [h]

theorem complete_of_none {entry : String} {p : Handle f} {w : Written f.Carrier} (h : w.halt = none) :
    heap.complete entry p w = .silent (.ok (.handle f p, heap.set p w.out)) := by
  unfold complete
  rw [h]

/-- Take any heap and any call with an output whose handles, the same or not, are live. The call completes
    exactly if its operation does on the contents before the call; the output then holds what the operation
    wrote, and every other handle of either form what it held. Otherwise the call ends the program for the
    reason for which the operation stopped. -/
theorem call_refines_snapshot (heap : Heap) (w : Writing f) (held : Handle f → f.Carrier)
    (live : ∀ p ∈ w.handles, heap.get? p = some (held p)) :
    ((∃ value after, (heap.call w.call).result = .ok (value, after)) ↔ (w.operation held).halt = none) ∧
    (∀ value after, (heap.call w.call).result = .ok (value, after) →
      after.get? w.out = some (w.operation held).out ∧
      (∀ q : Handle f, q ≠ w.out → after.get? q = heap.get? q) ∧
      ∀ (g : Form) (q : Handle g), g ≠ f → after.get? q = heap.get? q) ∧
    ∀ cause, (w.operation held).halt = some cause → heap.call w.call = .halted w.call.entry cause := by
  have hcall := call_of_held live
  have hout := live w.out w.out_mem_handles
  rw [hcall]
  refine ⟨⟨?_, fun h => ?_⟩, ?_, fun cause h => complete_of_halt h⟩
  · rintro ⟨value, after, h⟩
    exact (complete_ok h).1
  · rw [complete_of_none h]
    exact ⟨_, _, rfl⟩
  · intro value after h
    obtain ⟨-, rfl⟩ := complete_ok h
    exact ⟨get?_set_self hout _, fun q hq => get?_set_ne hq _, fun g q hg => get?_set_form hg _⟩

/-- The product of `[3, -2]` with itself in its own place; the vector next to it stays. -/
theorem call_refines_snapshot_in_place :
    let square : Vector := .ofArray .integer #[.wrap .w32 3, .wrap .w32 (-2)]
    let other : Vector := .ofArray .boolean #[7]
    let heap : Heap := ⟨⟨#[some square, some other]⟩, .empty⟩
    ∃ value after, (heap.call (.arithmetic .vector .multiply (some ⟨0⟩) (some ⟨0⟩) (some ⟨0⟩))).result =
        .ok (value, after) ∧
      after.get? (f := .vector) ⟨0⟩ = some (.ofArray .integer #[.wrap .w32 9, .wrap .w32 4]) ∧
      after.get? (f := .vector) ⟨1⟩ = some other := by
  intro square other heap
  have live : ∀ p ∈ (Writing.arithmetic (f := .vector) .multiply ⟨0⟩ ⟨0⟩ ⟨0⟩).handles, heap.get? p = some square := by
    simp only [Writing.handles, List.forall_mem_cons]
    exact ⟨rfl, rfl, rfl, by simp⟩
  obtain ⟨completes, contents, -⟩ :=
    call_refines_snapshot heap (Writing.arithmetic (f := .vector) .multiply ⟨0⟩ ⟨0⟩ ⟨0⟩) (fun _ => square) live
  obtain ⟨value, after, h⟩ := completes.mpr rfl
  obtain ⟨hout, hothers, -⟩ := contents value after h
  exact ⟨value, after, h, hout.trans rfl, hothers ⟨1⟩ (by decide)⟩

end Heap

end TypedArrays.Boundary
