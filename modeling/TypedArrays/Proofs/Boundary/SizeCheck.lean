import TypedArrays.Proofs.Boundary.Lanes
import TypedArrays.Proofs.Operator

/-! Size checks and arithmetic calls agree.

A caller may ask for the sizes of two containers to be compared and gets a status; an arithmetic call
makes the same comparisons itself and ends the program. The two report the same thing in the same words.
Once the checks are passed and the kinds agree, all that is left to go wrong is an operator without a
result on some lane of integers. -/

namespace TypedArrays

/-! ### Messages -/

/-- The message of a mismatch is that of its status. -/
theorem Form.mismatch_message {f : Form} (s t : f.Shape) :
    (f.mismatch s t).message = Status.messageOf (f.mismatch s t).status.code := by
  cases f <;> rfl

namespace Boundary.Heap
variable {heap : Heap} {f : Form} {out lhs rhs : Handle f} {o l r : f.Carrier}

/-! ### Checks -/

/-- A size check of two containers hands back a status. -/
def Checks (heap : Heap) {f : Form} (lhs rhs : Handle f) (status : Status) : Prop :=
  (heap.call (.checkSame f (some lhs) (some rhs))).result = .ok (.number status.code, heap)

def Completes (heap : Heap) (c : HandleCall) : Prop := ∃ value after, (heap.call c).result = .ok (value, after)

/-- A call ends the program for its operands, in the words for a status. -/
def Refuses (heap : Heap) (c : HandleCall) (status : Status) : Prop :=
  ∃ abort text, (heap.call c).result = .error abort ∧
    (heap.call (.statusMessage status.code)).result = .ok (.text text, heap) ∧
    abort.message = "called `" ++ c.entry ++ "` with invalid operands: " ++ text

/-- A call ends the program because an operator has no result. -/
def Traps (heap : Heap) (c : HandleCall) : Prop :=
  ∃ trap : Trap, (heap.call c).result = .error (.trap trap) ∧ trap.IsUndefined

/-- The status of two containers. -/
def statusOf (f : Form) (l r : f.Carrier) : Status :=
  if f.shape l = f.shape r then .ok else (f.mismatch (f.shape l) (f.shape r)).status

theorem statusOf_eq_ok_iff : statusOf f l r = .ok ↔ f.shape l = f.shape r := by
  unfold statusOf
  split
  · rename_i h
    exact ⟨fun _ => h, fun _ => rfl⟩
  · rename_i h
    exact ⟨fun hs => absurd hs (Fault.status_ne_ok _), fun hs => absurd hs h⟩

theorem checks_of_live (hl : heap.get? lhs = some l) (hr : heap.get? rhs = some r) :
    heap.Checks lhs rhs (statusOf f l r) := by
  have hoperands : ∀ entry, heap.operands entry (some lhs) (some rhs) = .ok (l, r) := fun entry => by
    simp only [operands, nonNull_some, bind, Except.bind, deref_of_live hl, deref_of_live hr]
    rfl
  unfold Checks statusOf
  simp only [call, check, hoperands, Reaction.guarded, Form.checkSame_eq]
  by_cases h : f.shape l = f.shape r
  · simp only [if_pos h, Reaction.silent]
  · simp only [if_neg h]

/-! ### Arithmetic calls -/

theorem arithmetic_of_live {n : Numeric} (op : Arithmetic) (ho : heap.get? out = some o) (hl : heap.get? lhs = some l)
    (hr : heap.get? rhs = some r) (hn : f.kind l = n.kind) :
    let c : HandleCall := .arithmetic f op (some out) (some lhs) (some rhs)
    heap.call c = heap.complete c.entry out (f.binaryWith (Storage.combine n.kind (n.apply op)) o l r) := by
  intro c
  rw [← Form.arithmetic_some, ← Form.arithmetic_of_kind hn]
  exact binary_of_live ho hl hr

theorem refuses_of_mismatch {c : HandleCall} (hlr : f.shape l ≠ f.shape r)
    (h : heap.call c = heap.complete c.entry out (.refused o (f.mismatch (f.shape l) (f.shape r)))) :
    heap.Refuses c (statusOf f l r) := by
  refine ⟨.invalidOperands c.entry (f.mismatch (f.shape l) (f.shape r)), _, ?_, rfl, ?_⟩
  · rw [h]
    rfl
  · unfold statusOf
    rw [if_neg hlr, ← Form.mismatch_message]
    rfl

theorem Tracks.of_element? {kind : Kind} {handles : List (Handle f)} {shape : f.Shape} {m i : Nat}
    {registers : Nat → Handle f → kind.Carrier} (h : Tracks heap handles kind shape m registers) {p : Handle f}
    (hp : p ∈ handles) {a : kind.Carrier} (ha : heap.element? kind p i = some a) : i < m ∧ registers i p = a := by
  obtain ⟨c, data, hc, -, hdata, hm, hlanes⟩ := h p hp
  rw [element?_of_storage hc hdata] at ha
  have hi : i < m := hm ▸ (Array.getElem?_eq_some_iff.mp ha).1
  rw [hlanes i hi] at ha
  exact ⟨hi, Option.some.inj ha⟩

/-- On containers of one shape and one numeric kind a call completes or traps, and it traps exactly if the
    kind is integer and the operator has no result on some lane. -/
theorem completes_or_traps (reached : heap.Reachable) {n : Numeric} (op : Arithmetic) (ho : heap.get? out = some o)
    (hl : heap.get? lhs = some l) (hr : heap.get? rhs = some r) (hlr : f.shape l = f.shape r)
    (hlo : f.shape l = f.shape o) (hkl : f.kind l = n.kind) (hkr : f.kind r = n.kind) (hko : f.kind o = n.kind) :
    let c : HandleCall := .arithmetic f op (some out) (some lhs) (some rhs)
    (heap.Completes c ∨ heap.Traps c) ∧
      (heap.Traps c ↔ n = .integer ∧ ∃ i a b, heap.element? .integer lhs i = some a ∧
        heap.element? .integer rhs i = some b ∧ op.Undefined a.val b.val) := by
  intro c
  have huniform : Uniform heap [out, lhs, rhs] n.kind (f.shape l) := by
    simp only [Uniform, List.forall_mem_cons]
    exact ⟨⟨o, ho, hko, hlo.symm⟩, ⟨l, hl, hkl, rfl⟩, ⟨r, hr, hkr, hlr.symm⟩, by simp⟩
  have htracks := huniform.tracks reached.wellFormed
  rcases Tracks.step (F := .arithmetic f n) htracks (.arithmetic op out lhs rhs) (fun p hp => hp) with
    ⟨i, hi, trap, hlane, hcall⟩ | ⟨values, value, after, hlane, hcall, -⟩
  · -- Some lane traps, so its operands are integers on which the operator has no result.
    have htraps : heap.Traps c := ⟨trap, hcall, (Numeric.apply_error hlane).2⟩
    refine ⟨Or.inr htraps, fun _ => ?_, fun _ => htraps⟩
    obtain ⟨rfl, -⟩ := Numeric.apply_error hlane
    refine ⟨rfl, i, _, _, htracks.element? (by simp) hi, htracks.element? (by simp) hi, ?_⟩
    exact (Arithmetic.onWords_error hlane).1
  · -- No lane traps, and a lane on which the operator has no result would.
    refine ⟨Or.inl ⟨value, after, hcall⟩, ?_, ?_⟩
    · rintro ⟨trap, htrap, -⟩
      cases hcall.symm.trans htrap
    · rintro ⟨rfl, i, a, b, ha, hb, hundefined⟩
      obtain ⟨hi, rfl⟩ := htracks.of_element? (by simp) ha
      obtain ⟨-, rfl⟩ := htracks.of_element? (by simp) hb
      obtain ⟨trap, htrap⟩ := Arithmetic.onWords_of_undefined hundefined
      cases (hlane i hi).symm.trans htrap

/-- Take live containers of one form, the left operand of a numeric kind, and their two size checks. If the
    operands fail theirs, an arithmetic call ends the program with the message of that status; if only the
    output does, with the message of that one. If both pass and the kinds agree, the call completes or
    traps, and it traps exactly for integers on some lane of which the operator has no result. -/
theorem arithmetic_agrees_with_checks (reached : heap.Reachable) (n : Numeric) (op : Arithmetic)
    (out lhs rhs : Handle f) (ho : heap.get? out = some o) (hl : heap.get? lhs = some l) (hr : heap.get? rhs = some r)
    (hn : f.kind l = n.kind) :
    let c : HandleCall := .arithmetic f op (some out) (some lhs) (some rhs)
    ∃ operands output : Status, heap.Checks lhs rhs operands ∧ heap.Checks lhs out output ∧
      (operands = .ok ↔ f.shape l = f.shape r) ∧ (output = .ok ↔ f.shape l = f.shape o) ∧
      (operands ≠ .ok → heap.Refuses c operands) ∧
      (operands = .ok → output ≠ .ok → heap.Refuses c output) ∧
      (operands = .ok → output = .ok → f.kind r = f.kind l → f.kind o = f.kind l →
        (heap.Completes c ∨ heap.Traps c) ∧
          (heap.Traps c ↔ f.kind l = .integer ∧ ∃ i a b, heap.element? .integer lhs i = some a ∧
            heap.element? .integer rhs i = some b ∧ op.Undefined a.val b.val)) := by
  intro c
  have hcall := arithmetic_of_live op ho hl hr hn
  refine ⟨statusOf f l r, statusOf f l o, checks_of_live hl hr, checks_of_live hl ho, statusOf_eq_ok_iff,
    statusOf_eq_ok_iff, fun hlr => ?_, fun hlr hlo => ?_, fun hlr hlo hkr hko => ?_⟩
  · have hlr' := fun h => hlr (statusOf_eq_ok_iff.mpr h)
    rw [Form.binaryWith_eq, if_neg hlr'] at hcall
    exact refuses_of_mismatch hlr' hcall
  · have hlo' := fun h => hlo (statusOf_eq_ok_iff.mpr h)
    rw [Form.binaryWith_eq, if_pos (statusOf_eq_ok_iff.mp hlr), if_neg hlo'] at hcall
    exact refuses_of_mismatch hlo' hcall
  · have hinteger : f.kind l = .integer ↔ n = .integer := by
      rw [hn]
      cases n <;> simp [Numeric.kind]
    rw [hinteger]
    exact completes_or_traps reached op ho hl hr (statusOf_eq_ok_iff.mp hlr) (statusOf_eq_ok_iff.mp hlo) hn
      (hkr.trans hn) (hko.trans hn)

/-- In one heap: `[0, 5]` to the powers `[-1, 2]` in place of the base traps, and a matrix of two rows and
    three columns is not added to one of three rows and two columns. -/
theorem arithmetic_agrees_with_checks_of_equal_counts :
    ∃ heap : Heap, heap.Reachable ∧
      heap.Traps (.arithmetic .vector .power (some ⟨0⟩) (some ⟨0⟩) (some ⟨1⟩)) ∧
      ∃ status : Status, status ≠ .ok ∧ heap.Checks (f := .matrix) ⟨0⟩ ⟨1⟩ status ∧
        heap.Refuses (.arithmetic .matrix .add (some ⟨0⟩) (some ⟨0⟩) (some ⟨1⟩)) status := by
  let base : Vector := .ofArray .integer #[.wrap .w32 0, .wrap .w32 5]
  let exponent : Vector := .ofArray .integer #[.wrap .w32 (-1), .wrap .w32 2]
  let wide : Matrix := ⟨2, 3, ⟨.integer, Array.replicate 6 (.wrap .w32 0)⟩⟩
  let tall : Matrix := ⟨3, 2, ⟨.integer, Array.replicate 6 (.wrap .w32 0)⟩⟩
  let heap : Heap := ⟨⟨#[some base, some exponent]⟩, ⟨#[some wide, some tall]⟩⟩
  have made : Heap.empty.run [.newVector 3 2, .newVector 3 2, .data .vector (some ⟨0⟩) [0, 5],
      .data .vector (some ⟨1⟩) [-1, 2], .newMatrix 3 2 3, .newMatrix 3 3 2] = .ok heap := rfl
  have reached : heap.Reachable := Reachable.empty.run made
  refine ⟨heap, reached, ?_, ?_⟩
  · obtain ⟨s, t, -, -, hs, ht, -, -, htraps⟩ := arithmetic_agrees_with_checks (f := .vector) reached .integer .power
      ⟨0⟩ ⟨0⟩ ⟨1⟩ rfl rfl rfl rfl
    refine (htraps (hs.mpr rfl) (ht.mpr rfl) rfl rfl).2.mpr ⟨rfl, 0, .wrap .w32 0, .wrap .w32 (-1), rfl, rfl, ?_⟩
    exact ⟨rfl, by decide⟩
  · obtain ⟨s, t, hchecks, -, hs, -, hrefuses, -⟩ := arithmetic_agrees_with_checks (f := .matrix) reached .integer .add
      ⟨0⟩ ⟨0⟩ ⟨1⟩ rfl rfl rfl rfl
    have hne : s ≠ .ok := fun h => absurd (hs.mp h) (by decide)
    exact ⟨s, hne, hchecks, hrefuses hne⟩

end Boundary.Heap

end TypedArrays
