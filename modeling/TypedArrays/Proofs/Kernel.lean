import TypedArrays.Kernel
import TypedArrays.Proofs.Operator

/-! What a loop over buffers leaves behind.

A loop is seen as a family of lanes: `lane j` is what lane `j` computes. `Swept` says that the lanes
before some lane `k` are written, that all others keep what they held, and that `k` is the first lane
that traps, or the end. Everything else about loops follows from it. -/

namespace TypedArrays.Kernel

variable {α β : Type}

/-- A loop over the lanes from `i` to `n` wrote those before `k` and stopped there: lane `k` traps, or
    there is no such lane. -/
structure Swept (lane : Nat → Except Trap α) (i n : Nat) (out : Array α) (s : Sweep α) (k : Nat) : Prop where
  ge : i ≤ k
  le : k ≤ n
  size : s.out.size = out.size
  written : ∀ j, i ≤ j → j < k → ∃ value, lane j = .ok value ∧ s.out[j]? = some value
  kept : ∀ j, j < i ∨ k ≤ j → s.out[j]? = out[j]?
  ending : (k = n ∧ s.trap = none) ∨ (k < n ∧ ∃ trap, lane k = .error trap ∧ s.trap = some trap)

namespace Swept
variable {lane : Nat → Except Trap α} {i n k : Nat} {out : Array α} {s : Sweep α}

theorem all_written (h : Swept lane i n out s k) (hs : s.trap = none) :
    ∀ j, i ≤ j → j < n → ∃ value, lane j = .ok value ∧ s.out[j]? = some value := by
  obtain ⟨rfl, -⟩ | ⟨-, trap, -, ht⟩ := h.ending
  · exact h.written
  · rw [hs] at ht
    cases ht

/-- The trap of a loop is that of a lane, and no lane before it traps. -/
theorem trapped (h : Swept lane i n out s k) {trap : Trap} (hs : s.trap = some trap) :
    i ≤ k ∧ k < n ∧ lane k = .error trap ∧ ∀ j, i ≤ j → j < k → ∃ value, lane j = .ok value := by
  obtain ⟨-, ht⟩ | ⟨hk, trap', hlane, ht⟩ := h.ending
  · rw [hs] at ht
    cases ht
  · rw [hs] at ht
    cases ht
    refine ⟨h.ge, hk, hlane, fun j hi hj => ?_⟩
    obtain ⟨value, hv, -⟩ := h.written j hi hj
    exact ⟨value, hv⟩

theorem trap_eq_none (h : Swept lane i n out s k) (hall : ∀ j, i ≤ j → j < n → ∃ value, lane j = .ok value) :
    s.trap = none := by
  rcases h.ending with ⟨-, ht⟩ | ⟨hk, trap, hlane, -⟩
  · exact ht
  · obtain ⟨value, hv⟩ := hall k h.ge hk
    cases hlane.symm.trans hv

/-- A loop ends at the first lane that traps. -/
theorem eq_of_first (h : Swept lane i n out s k) {m : Nat} {trap : Trap} (hi : i ≤ m) (hn : m < n)
    (htrap : lane m = .error trap) (hfirst : ∀ j, i ≤ j → j < m → ∃ value, lane j = .ok value) :
    k = m ∧ s.trap = some trap := by
  have hkm : ¬m < k := by
    intro hmk
    obtain ⟨value, hv, -⟩ := h.written m hi hmk
    cases htrap.symm.trans hv
  rcases h.ending with ⟨rfl, -⟩ | ⟨-, other, hlane, ht⟩
  · exact absurd hn hkm
  · have hmk : ¬k < m := by
      intro hlt
      obtain ⟨value, hv⟩ := hfirst k h.ge hlt
      cases hlane.symm.trans hv
    obtain rfl : k = m := by omega
    cases hlane.symm.trans htrap
    exact ⟨rfl, ht⟩

/-- A loop with a result in every lane of its output leaves these results. -/
theorem eq_of_ok (h : Swept lane 0 out.size out s k) {g : Nat → α} (hall : ∀ j < out.size, lane j = .ok (g j)) :
    s = ⟨(Array.range out.size).map g, none⟩ := by
  have htrap : s.trap = none := h.trap_eq_none fun j _ hj => ⟨g j, hall j hj⟩
  have hout : s.out = (Array.range out.size).map g := by
    refine Array.ext_getElem? fun j => ?_
    by_cases hj : j < out.size
    · obtain ⟨value, hlane, hvalue⟩ := h.all_written htrap j (Nat.zero_le j) hj
      cases hlane.symm.trans (hall j hj)
      simp [hvalue, hj]
    · rw [h.kept j (Or.inr (Nat.le_trans h.le (Nat.le_of_not_lt hj)))]
      simp [hj]
  calc s = ⟨s.out, s.trap⟩ := rfl
    _ = ⟨(Array.range out.size).map g, none⟩ := by rw [hout, htrap]

/-- A loop that runs into lanes without a result takes its trap from one of them. -/
theorem exists_trapped (h : Swept lane i n out s k) {j : Nat} {trap : Trap} (hi : i ≤ j) (hn : j < n)
    (htrap : lane j = .error trap) : ∃ m other, lane m = .error other ∧ s.trap = some other := by
  rcases h.ending with ⟨rfl, -⟩ | ⟨-, other, hlane, hs⟩
  · obtain ⟨value, hvalue, -⟩ := h.written j hi hn
    cases htrap.symm.trans hvalue
  · exact ⟨k, other, hlane, hs⟩

end Swept

theorem fill_size (f : β → Except Trap α) (inputs : List β) (i : Nat) (out : Array α) :
    (fill f inputs i out).out.size = out.size := by
  fun_induction fill f inputs i out with
  | case1 => rfl
  | case2 _ _ _ _ _ _ ih => rw [ih, Array.size_setIfInBounds]
  | case3 => rfl

theorem fill_swept (lane : Nat → Except Trap α) {n : Nat} (f : β → Except Trap α) (inputs : List β) (i : Nat)
    (out : Array α) (hlane : ∀ j x, inputs[j]? = some x → lane (i + j) = f x) (hn : i + inputs.length = n)
    (hout : n ≤ out.size) : ∃ k, Swept lane i n out (fill f inputs i out) k := by
  fun_induction fill f inputs i out with
  | case1 i out =>
    simp only [List.length_nil, Nat.add_zero] at hn
    exact ⟨i, Nat.le_refl i, by omega, rfl, fun j h1 h2 => by omega, fun _ _ => rfl, Or.inl ⟨hn, rfl⟩⟩
  | case2 input rest i out value hf ih =>
    simp only [List.length_cons] at hn
    obtain ⟨k, h⟩ := ih (fun j x hx => by rw [Nat.add_right_comm]; exact hlane (j + 1) x hx) (by omega)
      (by rw [Array.size_setIfInBounds]; exact hout)
    have hge := h.ge
    have hi : (fill f rest (i + 1) (out.setIfInBounds i value)).out[i]? = some value := by
      rw [h.kept i (Or.inl (Nat.lt_succ_self i)), Array.getElem?_setIfInBounds_self_of_lt (by omega)]
    refine ⟨k, by omega, h.le, by rw [h.size, Array.size_setIfInBounds], fun j h1 h2 => ?_, fun j hj => ?_, h.ending⟩
    · -- Lane `i` is written by this round, the later ones by the rounds after it.
      rcases Nat.eq_or_lt_of_le h1 with rfl | h1
      · exact ⟨value, (hlane 0 input rfl).trans hf, hi⟩
      · exact h.written j h1 h2
    · rw [h.kept j (by omega), Array.getElem?_setIfInBounds_ne (by omega)]
  | case3 input rest i out trap hf =>
    simp only [List.length_cons] at hn
    refine ⟨i, Nat.le_refl i, by omega, rfl, fun j h1 h2 => by omega, fun _ _ => rfl, Or.inr ⟨by omega, trap, ?_, rfl⟩⟩
    exact (hlane 0 input rfl).trans hf

/-- A loop over two operands as long as the output goes through all lanes. -/
theorem binary_swept (lane : Nat → Except Trap α) (f : α → α → Except Trap α) {out lhs rhs : Array α}
    (hl : lhs.size = out.size) (hr : rhs.size = out.size)
    (hlane : ∀ j l r, lhs[j]? = some l → rhs[j]? = some r → lane j = f l r) :
    ∃ k, Swept lane 0 out.size out (binary f out lhs rhs) k := by
  unfold binary
  rw [if_pos ⟨hl, hr⟩]
  refine fill_swept lane _ _ 0 out (fun j x hx => ?_) (by simp [hl, hr]) (Nat.le_refl _)
  obtain ⟨l, r⟩ := x
  rw [List.getElem?_zip_eq_some, Array.getElem?_toList, Array.getElem?_toList] at hx
  rw [Nat.zero_add]
  exact hlane j l r hx.1 hx.2

theorem unary_swept (lane : Nat → Except Trap α) (loop : UnaryLoop) (f : α → α) {out lhs : Array α}
    (hl : out.size = lhs.size) (hlane : ∀ j l, lhs[j]? = some l → lane j = .ok (f l)) :
    ∃ k, Swept lane 0 out.size out (unary loop f out lhs) k := by
  unfold unary
  rw [if_pos hl]
  refine fill_swept lane _ _ 0 out (fun j x hx => ?_) (by simp [hl]) (Nat.le_refl _)
  rw [Array.getElem?_toList] at hx
  rw [Nat.zero_add]
  exact hlane j x hx

theorem binary_size (f : α → α → Except Trap α) (out lhs rhs : Array α) :
    (binary f out lhs rhs).out.size = out.size := by
  unfold binary
  split
  · exact fill_size _ _ _ _
  · rfl

theorem unary_size (loop : UnaryLoop) (f : α → α) (out lhs : Array α) :
    (unary loop f out lhs).out.size = out.size := by
  unfold unary
  split
  · exact fill_size _ _ _ _
  · rfl

/-! ### Loops that never trap -/

/-- A loop that never traps writes every lane that it goes through. -/
theorem fill_total (g : β → α) (inputs : List β) (i : Nat) (out : Array α) (h : i + inputs.length = out.size) :
    fill (fun x => .ok (g x)) inputs i out = ⟨out.extract 0 i ++ (inputs.map g).toArray, none⟩ := by
  induction inputs generalizing i out with
  | nil =>
    have hi : i = out.size := h
    simp [fill, hi]
  | cons x rest ih =>
    rw [List.length_cons] at h
    have hwritten : (out.setIfInBounds i (g x)).extract 0 (i + 1) = (out.extract 0 i).push (g x) := by
      have hi : i < out.size := by omega
      apply Array.toList_inj.mp
      simp [List.take_add_one, hi, List.take_set_of_le]
    have hrest := ih (i + 1) (out.setIfInBounds i (g x)) (by rw [Array.size_setIfInBounds]; omega)
    rw [hwritten] at hrest
    rw [fill]
    simpa using hrest

theorem binary_total (g : α → α → α) {out lhs rhs : Array α} (hl : lhs.size = out.size) (hr : rhs.size = out.size) :
    binary (fun a b => .ok (g a b)) out lhs rhs = ⟨Array.zipWith g lhs rhs, none⟩ := by
  have hfill := fill_total (fun p => g p.1 p.2) (lhs.toList.zip rhs.toList) 0 out (by simp [hl, hr])
  have hmap : ((lhs.toList.zip rhs.toList).map fun p => g p.1 p.2).toArray = Array.zipWith g lhs rhs := by
    apply Array.toList_inj.mp
    simp [List.zip, List.map_zipWith]
  rw [hmap] at hfill
  unfold binary
  rw [if_pos ⟨hl, hr⟩]
  simpa using hfill

theorem unary_total (loop : UnaryLoop) (g : α → α) {out lhs : Array α} (hl : out.size = lhs.size) :
    unary loop g out lhs = ⟨lhs.map g, none⟩ := by
  have hfill := fill_total g lhs.toList 0 out (by simp [hl])
  have hmap : (lhs.toList.map g).toArray = lhs.map g := by rw [← Array.toList_map, Array.toArray_toList]
  rw [hmap] at hfill
  unfold unary
  rw [if_pos hl]
  simpa using hfill

/-! ### Lanes of two operands -/

/-- Both operand buffers have a lane `i`, and the operation there comes to a result. -/
def Lane (f : α → α → Except Trap α) (lhs rhs : Array α) (i : Nat) (result : Except Trap α) : Prop :=
  ∃ l r, lhs[i]? = some l ∧ rhs[i]? = some r ∧ f l r = result

section Lanes
variable {f : α → α → Except Trap α} {out lhs rhs : Array α}

theorem Lane.lt_size {i : Nat} {result : Except Trap α} (h : Lane f lhs rhs i result) : i < lhs.size := by
  obtain ⟨l, r, hl, -⟩ := h
  exact (Array.getElem?_eq_some_iff.mp hl).1

theorem lane_iff [Inhabited α] {i : Nat} (hl : i < lhs.size) (hr : i < rhs.size) {result : Except Trap α} :
    Lane f lhs rhs i result ↔ f (lhs.getD i default) (rhs.getD i default) = result := by
  simp [Lane, hl, hr]

theorem exists_ok_of_not_trap [Inhabited α] {i : Nat} (hl : i < lhs.size) (hr : i < rhs.size)
    (h : ∀ trap, ¬Lane f lhs rhs i (.error trap)) :
    ∃ value, f (lhs.getD i default) (rhs.getD i default) = .ok value := by
  cases hresult : f (lhs.getD i default) (rhs.getD i default) with
  | ok value => exact ⟨value, rfl⟩
  | error trap => exact absurd ((lane_iff hl hr).mpr hresult) (h trap)

/-- A loop over two operands as long as the output writes what its lanes come to, up to the first trap. -/
theorem binary_lanes [Inhabited α] (hl : lhs.size = out.size) (hr : rhs.size = out.size) :
    let s := binary f out lhs rhs
    ((∀ i trap, ¬Lane f lhs rhs i (.error trap)) →
      s.trap = none ∧ ∀ i < out.size, ∃ value, Lane f lhs rhs i (.ok value) ∧ s.out[i]? = some value) ∧
    ∀ k trap, Lane f lhs rhs k (.error trap) → (∀ i < k, ∀ other, ¬Lane f lhs rhs i (.error other)) →
      s.trap = some trap ∧ (∀ i < k, ∃ value, Lane f lhs rhs i (.ok value) ∧ s.out[i]? = some value) ∧
        ∀ i, k ≤ i → s.out[i]? = out[i]? := by
  intro s
  obtain ⟨k, hk⟩ := binary_swept (fun i => f (lhs.getD i default) (rhs.getD i default)) f hl hr
    fun j l r hl hr => by simp [hl, hr]
  refine ⟨fun hnone => ?_, fun m trap htrap hfirst => ?_⟩
  · have hall : ∀ i, 0 ≤ i → i < out.size → ∃ value, f (lhs.getD i default) (rhs.getD i default) = .ok value :=
      fun i _ hi => exists_ok_of_not_trap (by omega) (by omega) (hnone i)
    have hs := hk.trap_eq_none hall
    refine ⟨hs, fun i hi => ?_⟩
    obtain ⟨value, hvalue, hout⟩ := hk.all_written hs i (Nat.zero_le i) hi
    exact ⟨value, (lane_iff (by omega) (by omega)).mpr hvalue, hout⟩
  · have hm := htrap.lt_size
    obtain ⟨rfl, hs⟩ := hk.eq_of_first (Nat.zero_le m) (by omega) ((lane_iff hm (by omega)).mp htrap)
      fun i _ hi => exists_ok_of_not_trap (by omega) (by omega) (hfirst i hi)
    refine ⟨hs, fun i hi => ?_, fun i hi => hk.kept i (Or.inr hi)⟩
    obtain ⟨value, hvalue, hout⟩ := hk.written i (Nat.zero_le i) hi
    exact ⟨value, (lane_iff (by omega) (by omega)).mpr hvalue, hout⟩

end Lanes

/-! ### Operators -/

/-- Picking the operation before the loop comes to the same as applying the operator in every lane. -/
theorem arithmetic_eq_binary (s : Scalar α) (op : Arithmetic) : arithmetic s op = binary fun a b => op.apply s a b := by
  cases op <;> rfl

theorem binary_of_lengths (f : α → α → Except Trap α) {out lhs rhs : Array α}
    (h : ¬(lhs.size = out.size ∧ rhs.size = out.size)) :
    binary f out lhs rhs = ⟨out, some (.binaryLengths out.size lhs.size rhs.size)⟩ := if_neg h

theorem unary_of_lengths (loop : UnaryLoop) (f : α → α) {out lhs : Array α} (h : out.size ≠ lhs.size) :
    unary loop f out lhs = ⟨out, some (.unaryLengths loop out.size lhs.size)⟩ := if_neg h

/-- The loop of an operator on buffers of either numeric kind. If the lengths differ, it traps with all three
    of them and leaves the output alone. Otherwise it writes what the operator gives at each position; if it
    has no result at some position, the loop traps at the first such one, with the trap of that operator, and
    the output keeps what it held from there on. Negation writes every position, unless the lengths differ. -/
theorem arithmetic_sweeps_lanes (n : Numeric) (op : Arithmetic) (out lhs rhs : Array n.Carrier) :
    let s := arithmetic n.scalar op out lhs rhs
    let t := unary .negate n.negate out lhs
    (¬(lhs.size = out.size ∧ rhs.size = out.size) →
      s.out = out ∧ s.trap = some (.binaryLengths out.size lhs.size rhs.size)) ∧
    (lhs.size = out.size → rhs.size = out.size → s.out.size = out.size ∧
      ((∀ i trap, ¬Lane (n.apply op) lhs rhs i (.error trap)) →
        s.trap = none ∧ ∀ i < out.size, ∃ value, Lane (n.apply op) lhs rhs i (.ok value) ∧ s.out[i]? = some value) ∧
      ∀ k trap, Lane (n.apply op) lhs rhs k (.error trap) →
        (∀ i < k, ∀ other, ¬Lane (n.apply op) lhs rhs i (.error other)) →
        s.trap = some trap ∧ op.trap? = some trap ∧
          (∀ i < k, ∃ value, Lane (n.apply op) lhs rhs i (.ok value) ∧ s.out[i]? = some value) ∧
          ∀ i, k ≤ i → s.out[i]? = out[i]?) ∧
    (t.trap = none ↔ out.size = lhs.size) ∧ (out.size = lhs.size → t.out = lhs.map n.negate) ∧
    (out.size ≠ lhs.size → t.out = out ∧ t.trap = some (.unaryLengths .negate out.size lhs.size)) := by
  intro s t
  have hs : s = binary (n.apply op) out lhs rhs := by
    simp only [s, arithmetic_eq_binary]
    rfl
  rw [hs]
  refine ⟨fun h => ?_, fun hl hr => ⟨binary_size .., ?_⟩, ?_⟩
  · rw [binary_of_lengths _ h]
    exact ⟨rfl, rfl⟩
  · obtain ⟨hnone, hfirst⟩ := binary_lanes (f := n.apply op) hl hr
    refine ⟨hnone, fun k trap htrap hbefore => ?_⟩
    obtain ⟨hstop, hwritten, hkept⟩ := hfirst k trap htrap hbefore
    obtain ⟨l, r, -, -, happly⟩ := htrap
    exact ⟨hstop, (Numeric.apply_eq_error happly).2, hwritten, hkept⟩
  · by_cases h : out.size = lhs.size
    · have ht : t = ⟨lhs.map n.negate, none⟩ := unary_total .negate n.negate h
      rw [ht]
      exact ⟨iff_of_true rfl h, fun _ => rfl, fun hne => absurd h hne⟩
    · have ht : t = ⟨out, some (.unaryLengths .negate out.size lhs.size)⟩ := unary_of_lengths .negate n.negate h
      rw [ht]
      exact ⟨iff_of_false (by simp) h, fun heq => absurd heq h, fun _ => ⟨rfl, rfl⟩⟩

/-- Remainders by `[3, 0, 0]`: the first is written, the second traps, and the third is not looked at. -/
theorem arithmetic_sweeps_lanes_of_zero_divisor :
    let out : Array (Word .w32) := #[.wrap .w32 9, .wrap .w32 9, .wrap .w32 9]
    let lhs : Array (Word .w32) := #[.wrap .w32 (-7), .wrap .w32 7, .wrap .w32 5]
    let rhs : Array (Word .w32) := #[.wrap .w32 3, .wrap .w32 0, .wrap .w32 0]
    let s := arithmetic Numeric.integer.scalar .modulus out lhs rhs
    lhs.size = out.size ∧ rhs.size = out.size ∧ s.trap = some .remainderByZero ∧
      s.out[0]? = some (.wrap .w32 (-1)) ∧ s.out[1]? = out[1]? ∧ s.out[2]? = out[2]? := by
  intro out lhs rhs s
  obtain ⟨-, hrun, -⟩ := arithmetic_sweeps_lanes .integer .modulus out lhs rhs
  obtain ⟨-, -, hfirst⟩ := hrun rfl rfl
  obtain ⟨hstop, -, hwritten, hkept⟩ := hfirst 1 .remainderByZero ⟨_, _, rfl, rfl, rfl⟩ (by
    intro i hi other h
    obtain rfl : i = 0 := by omega
    obtain ⟨l, r, ⟨⟩, ⟨⟩, h⟩ := h
    cases h)
  obtain ⟨value, ⟨l, r, ⟨⟩, ⟨⟩, ⟨⟩⟩, hvalue⟩ := hwritten 0 (by omega)
  exact ⟨rfl, rfl, hstop, hvalue, hkept 1 (by omega), hkept 2 (by omega)⟩

end TypedArrays.Kernel
