import TypedArrays.Proofs.Boundary.Heap

/-! What calls with an output read and write.

Such a call reads what its pointers stand for and writes what its output stands for, nothing else. If it
completes on one heap, it completes on every heap that agrees with it there, and stores the same container
(`call_footprint`). Hence two calls neither of which writes what the other reads or writes can be made in
either order. -/

namespace TypedArrays.Boundary

/-- A pointer to a container of either form. -/
abbrev Place := (f : Form) × Pointer f

namespace Call

/-- The output of a call that writes one. -/
def output? : HandleCall → Option Place
  | arithmetic f _ out _ _ => some ⟨f, out⟩
  | negate f out _ => some ⟨f, out⟩
  | not out _ => some ⟨.vector, out⟩
  | logic _ out _ _ => some ⟨.vector, out⟩
  | logicScalar _ out _ _ => some ⟨.vector, out⟩
  | _ => none

/-- The operands of a call that writes an output; the output may be among them. -/
def operands : HandleCall → List Place
  | arithmetic f _ _ lhs rhs => [⟨f, lhs⟩, ⟨f, rhs⟩]
  | negate f _ lhs => [⟨f, lhs⟩]
  | not _ lhs => [⟨.vector, lhs⟩]
  | logic _ _ lhs rhs => [⟨.vector, lhs⟩, ⟨.vector, rhs⟩]
  | logicScalar _ _ lhs _ => [⟨.vector, lhs⟩]
  | _ => []

end Call

namespace Heap
variable {heap other : Heap} {f g : Form}

/-! ### Stores in two places -/

theorem set_comm {p : Handle f} {q : Handle g} (h : (⟨f, some p⟩ : Place) ≠ ⟨g, some q⟩) (u : f.Carrier)
    (v : g.Carrier) : (heap.set p u).set q v = (heap.set q v).set p u := by
  have hindex : f = g → p.index ≠ q.index := by
    rintro rfl hi
    cases p
    cases q
    cases hi
    exact h rfl
  -- Of one form, two cells of one arena change; of two forms, one cell of each.
  cases f with
  | vector =>
    cases g with
    | vector => simp only [set, withArena, arena, Arena.set, Array.setIfInBounds_comm _ _ (hindex rfl)]
    | matrix => rfl
  | matrix =>
    cases g with
    | vector => rfl
    | matrix => simp only [set, withArena, arena, Arena.set, Array.setIfInBounds_comm _ _ (hindex rfl)]

/-- Two heaps hold the same at some places. -/
def Agree (heap other : Heap) (places : List Place) : Prop :=
  ∀ {f : Form} {p : Handle f}, ⟨f, some p⟩ ∈ places → heap.get? p = other.get? p

theorem Agree.symm {places : List Place} (h : Agree heap other places) : Agree other heap places :=
  fun hp => (h hp).symm

theorem agree_set {places : List Place} {q : Handle g} (h : ⟨g, some q⟩ ∉ places) (v : g.Carrier) :
    Agree heap (heap.set q v) places := by
  intro f p hp
  by_cases hf : f = g
  · subst hf
    have hpq : p ≠ q := by
      rintro rfl
      exact h hp
    exact (get?_set_ne hpq v).symm
  · exact (get?_set_form hf v).symm

/-! ### One call -/

section Calls
variable {entry : String} {value : Value} {after : Heap}

/-- What an operand is read as, in its copy or in its place, is what its handle stands for. -/
theorem live_of_operand {out p : Handle f} {x : Operand f} {c : f.Carrier} (hx : heap.operand entry out p = .ok x)
    (hc : (heap.erase out).readOperand entry x = .ok c) : heap.get? p = some c := by
  unfold operand at hx
  split at hx
  · obtain ⟨d, hd, rfl⟩ := map_eq_ok.mp hx
    cases hc
    exact deref_eq_ok hd
  · rename_i hp
    cases hx
    exact (get?_erase_ne hp).symm.trans (deref_eq_ok hc)

theorem live_of_binary {run : (out lhs rhs : f.Carrier) → Written f.Carrier} {out lhs rhs : Pointer f}
    (h : (heap.binary entry run out lhs rhs).result = .ok (value, after)) :
    ∃ p q s o l r, out = some p ∧ lhs = some q ∧ rhs = some s ∧
      heap.get? p = some o ∧ heap.get? q = some l ∧ heap.get? s = some r := by
  obtain ⟨⟨p, w⟩, hw, -⟩ := guarded_ok h
  simp only [bind_eq_ok, pure, Except.pure, Except.ok.injEq, Prod.mk.injEq] at hw
  obtain ⟨p', hp, q, hq, s, hs, x, hx, y, hy, o, ho, l, hl, r, hr, -, -⟩ := hw
  exact ⟨p', q, s, o, l, r, nonNull_eq_ok hp, nonNull_eq_ok hq, nonNull_eq_ok hs, deref_eq_ok ho,
    live_of_operand hx hl, live_of_operand hy hr⟩

theorem live_of_unary {run : (out lhs : f.Carrier) → Written f.Carrier} {out lhs : Pointer f}
    (h : (heap.unary entry run out lhs).result = .ok (value, after)) :
    ∃ p q o l, out = some p ∧ lhs = some q ∧ heap.get? p = some o ∧ heap.get? q = some l := by
  obtain ⟨⟨p, w⟩, hw, -⟩ := guarded_ok h
  simp only [bind_eq_ok, pure, Except.pure, Except.ok.injEq, Prod.mk.injEq] at hw
  obtain ⟨p', hp, q, hq, x, hx, o, ho, l, hl, -, -⟩ := hw
  exact ⟨p', q, o, l, nonNull_eq_ok hp, nonNull_eq_ok hq, deref_eq_ok ho, live_of_operand hx hl⟩

/-- A call stored a container behind its output, and does so on another heap. -/
def StoresAlike (heap other : Heap) (out : Pointer f) (after : Heap) (result : Except Abort (Value × Heap)) : Prop :=
  ∃ p c, out = some p ∧ after = heap.set p c ∧ result = .ok (.handle f p, other.set p c)

theorem complete_storesAlike {p : Handle f} {w : Written f.Carrier}
    (h : (heap.complete entry p w).result = .ok (value, after)) :
    StoresAlike heap other (some p) after (other.complete entry p w).result := by
  obtain ⟨hw, rfl⟩ := complete_ok h
  refine ⟨p, w.out, rfl, rfl, ?_⟩
  simp only [complete, hw, Reaction.silent]

theorem binary_footprint {run : (out lhs rhs : f.Carrier) → Written f.Carrier} {out lhs rhs : Pointer f}
    (agree : Agree heap other [⟨f, out⟩, ⟨f, lhs⟩, ⟨f, rhs⟩])
    (h : (heap.binary entry run out lhs rhs).result = .ok (value, after)) :
    StoresAlike heap other out after (other.binary entry run out lhs rhs).result := by
  obtain ⟨p, q, s, o, l, r, rfl, rfl, rfl, ho, hl, hr⟩ := live_of_binary h
  have ho' : other.get? p = some o := (agree (by simp)).symm.trans ho
  have hl' : other.get? q = some l := (agree (by simp)).symm.trans hl
  have hr' : other.get? s = some r := (agree (by simp)).symm.trans hr
  rw [binary_of_live ho hl hr] at h
  rw [binary_of_live ho' hl' hr']
  exact complete_storesAlike h

theorem unary_footprint {run : (out lhs : f.Carrier) → Written f.Carrier} {out lhs : Pointer f}
    (agree : Agree heap other [⟨f, out⟩, ⟨f, lhs⟩])
    (h : (heap.unary entry run out lhs).result = .ok (value, after)) :
    StoresAlike heap other out after (other.unary entry run out lhs).result := by
  obtain ⟨p, q, o, l, rfl, rfl, ho, hl⟩ := live_of_unary h
  have ho' : other.get? p = some o := (agree (by simp)).symm.trans ho
  have hl' : other.get? q = some l := (agree (by simp)).symm.trans hl
  rw [unary_of_live ho hl] at h
  rw [unary_of_live ho' hl']
  exact complete_storesAlike h

/-- A call that completes stores a container behind its output, and stores the same one on every heap that
    agrees at its output and its operands. -/
theorem call_footprint {c : HandleCall} {out : Pointer f} (hc : c.output? = some ⟨f, out⟩)
    (agree : Agree heap other (⟨f, out⟩ :: c.operands)) (h : (heap.call c).result = .ok (value, after)) :
    StoresAlike heap other out after (other.call c).result := by
  cases c with
  | arithmetic form op out lhs rhs =>
    cases hc
    exact binary_footprint agree h
  | negate form out lhs =>
    cases hc
    exact unary_footprint agree h
  | not out lhs =>
    cases hc
    exact unary_footprint (f := .vector) agree h
  | logic op out lhs rhs =>
    cases hc
    exact binary_footprint (f := .vector) agree h
  | logicScalar op out lhs rhs =>
    cases hc
    exact unary_footprint (f := .vector) agree h
  | _ => cases hc

theorem call_stores {c : HandleCall} {out : Pointer f} (hc : c.output? = some ⟨f, out⟩)
    (h : (heap.call c).result = .ok (value, after)) : ∃ p v, out = some p ∧ after = heap.set p v := by
  obtain ⟨p, v, hp, hafter, -⟩ := call_footprint hc (fun _ => rfl : Agree heap heap _) h
  exact ⟨p, v, hp, hafter⟩

end Calls

/-! ### Two calls -/

section Pairs
variable {c d : HandleCall}

theorem run_pair_of_ok {value value' : Value} {next last : Heap} (hc : (heap.call c).result = .ok (value, next))
    (hd : (next.call d).result = .ok (value', last)) : heap.run [c, d] = .ok last := by
  simp only [run, hc, hd]
  rfl

theorem run_pair_of_first {cause : Abort} (hc : (heap.call c).result = .error cause) :
    heap.run [c, d] = .error (0, cause) := by
  simp only [run, hc]

theorem run_pair_of_second {value : Value} {next : Heap} {cause : Abort}
    (hc : (heap.call c).result = .ok (value, next)) (hd : (next.call d).result = .error cause) :
    heap.run [c, d] = .error (1, cause) := by
  simp only [run, hc, hd]
  rfl

variable {out₁ : Pointer f} {out₂ : Pointer g}

/-- An aborting call aborts as well after a call that writes nothing it looks at. -/
theorem run_pair_aborts {cause : Abort} (hc : c.output? = some ⟨f, out₁⟩) (hd : d.output? = some ⟨g, out₂⟩)
    (hne : (⟨f, out₁⟩ : Place) ≠ ⟨g, out₂⟩) (hread : ⟨g, out₂⟩ ∉ c.operands)
    (h : (heap.call c).result = .error cause) :
    (∃ stop, heap.run [c, d] = .error stop) ∧ ∃ stop, heap.run [d, c] = .error stop := by
  refine ⟨⟨_, run_pair_of_first h⟩, ?_⟩
  rcases hdcall : (heap.call d).result with cause' | ⟨value, after⟩
  · exact ⟨_, run_pair_of_first hdcall⟩
  · obtain ⟨q, v, rfl, rfl⟩ := call_stores hd hdcall
    have agree : Agree heap (heap.set q v) (⟨f, out₁⟩ :: c.operands) :=
      agree_set (List.not_mem_cons_of_ne_of_not_mem hne.symm hread) v
    rcases hccall : ((heap.set q v).call c).result with cause' | ⟨value', after'⟩
    · exact ⟨_, run_pair_of_second hdcall hccall⟩
    · -- Had it completed here, it would have completed on the first heap too.
      obtain ⟨p, u, -, -, hback⟩ := call_footprint hc agree.symm hccall
      rw [h] at hback
      cases hback

/-- Take any heap and two calls with outputs, none of which is the other's output or operand. Operands may
    be shared, an output may be an operand of its own call, and any pointer may be null. Then both orders
    complete, with the same heap in the end, or both abort. -/
theorem independent_calls_commute (heap : Heap) (c d : HandleCall) (out₁ : Pointer f) (out₂ : Pointer g)
    (hc : c.output? = some ⟨f, out₁⟩) (hd : d.output? = some ⟨g, out₂⟩) (hne : (⟨f, out₁⟩ : Place) ≠ ⟨g, out₂⟩)
    (h₁ : ⟨f, out₁⟩ ∉ d.operands) (h₂ : ⟨g, out₂⟩ ∉ c.operands) :
    (∃ after, heap.run [c, d] = .ok after ∧ heap.run [d, c] = .ok after) ∨
    ((∃ stop, heap.run [c, d] = .error stop) ∧ ∃ stop, heap.run [d, c] = .error stop) := by
  rcases hccall : (heap.call c).result with cause | ⟨value, after⟩
  · exact Or.inr (run_pair_aborts hc hd hne h₂ hccall)
  rcases hdcall : (heap.call d).result with cause | ⟨value', after'⟩
  · exact Or.inr (run_pair_aborts hd hc hne.symm h₁ hdcall).symm
  -- Each call completes on its own, so it completes after the other and stores what it stored.
  obtain ⟨q, v, rfl, rfl⟩ := call_stores hd hdcall
  have agree₁ : Agree heap (heap.set q v) (⟨f, out₁⟩ :: c.operands) :=
    agree_set (List.not_mem_cons_of_ne_of_not_mem hne.symm h₂) v
  obtain ⟨p, u, rfl, rfl, hafter⟩ := call_footprint hc agree₁ hccall
  have agree₂ : Agree heap (heap.set p u) (⟨g, some q⟩ :: d.operands) :=
    agree_set (List.not_mem_cons_of_ne_of_not_mem hne h₁) u
  obtain ⟨_, v', ⟨⟩, hstored, hafter'⟩ := call_footprint hd agree₂ hdcall
  have hend : (heap.set q v).set p u = (heap.set p u).set q v' := by rw [hstored, set_comm hne.symm]
  exact Or.inl ⟨_, run_pair_of_ok hccall hafter', hend ▸ run_pair_of_ok hdcall hafter⟩

/-- A product in place and a sum elsewhere share the operand `[1, 4]`. -/
theorem independent_calls_commute_on_shared_operand :
    let integers : List Int → Vector := fun xs => .ofArray .integer (xs.map (Word.wrap .w32)).toArray
    let heap : Heap := ⟨⟨#[some (integers [3, -2]), some (integers [1, 4]), some (integers [0, 0])]⟩, .empty⟩
    let product : HandleCall := .arithmetic .vector .multiply (some ⟨0⟩) (some ⟨0⟩) (some ⟨1⟩)
    let sum : HandleCall := .arithmetic .vector .add (some ⟨2⟩) (some ⟨1⟩) (some ⟨1⟩)
    let after : Heap := ⟨⟨#[some (integers [3, -8]), some (integers [1, 4]), some (integers [2, 8])]⟩, .empty⟩
    heap.run [product, sum] = .ok after ∧ heap.run [sum, product] = .ok after := by
  intro integers heap product sum after
  have hrun : heap.run [product, sum] = .ok after := rfl
  refine ⟨hrun, ?_⟩
  rcases independent_calls_commute heap product sum (some ⟨0⟩) (some ⟨2⟩) rfl rfl (by decide) (by decide) (by decide)
    with ⟨last, hfirst, hsecond⟩ | ⟨⟨stop, hstop⟩, -⟩
  · cases hrun.symm.trans hfirst
    exact hsecond
  · cases hrun.symm.trans hstop

end Pairs

end Heap

end TypedArrays.Boundary
