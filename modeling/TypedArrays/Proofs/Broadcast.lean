import TypedArrays.Proofs.Equality
import TypedArrays.Proofs.Refusal

/-! Logic with one byte and logic with a vector of that byte.

The two have loops and checks of their own. A vector filled with the byte and made to the size of the left operand
has nothing that a check could find at fault, so both are refused for the same reason or not at all; and where the
loops run, every lane reads the same two bytes. -/

namespace TypedArrays

namespace Form
variable {f : Form} {kind : Kind} {out lhs c : f.Carrier} {others : List f.Carrier}

/-! ### Verdicts -/

/-- A container of the shape of the left operand and of the required kind is never the one at fault. -/
theorem firstFault_cons (hshape : f.shape c = f.shape lhs) (hkind : f.kind c = kind) :
    f.firstFault kind lhs (c :: others) = f.firstFault kind lhs others := by
  have hkinds : ((lhs :: c :: others).map f.kind).find? (· ≠ kind) = ((lhs :: others).map f.kind).find? (· ≠ kind) := by
    by_cases hlhs : f.kind lhs = kind
    · simp [hlhs, hkind]
    · simp [hlhs]
  have hshapes : ((c :: others).map f.shape).find? (· ≠ f.shape lhs) = (others.map f.shape).find? (· ≠ f.shape lhs) := by
    simp [hshape]
  rw [firstFault, firstFault, hkinds, hshapes]

theorem firstFault_of_shape (h : f.shape lhs ≠ f.shape out) :
    f.firstFault kind lhs [out] = some (f.mismatch (f.shape lhs) (f.shape out)) := by
  simp [firstFault, Ne.symm h]

theorem firstFault_of_operand (hshape : f.shape lhs = f.shape out) (hlhs : f.kind lhs ≠ kind) :
    f.firstFault kind lhs [out] = some (.kindMismatch kind (f.kind lhs)) := by
  simp [firstFault, hshape, hlhs]

theorem firstFault_of_output (hshape : f.shape lhs = f.shape out) (hlhs : f.kind lhs = kind)
    (hout : f.kind out ≠ kind) : f.firstFault kind lhs [out] = some (.kindMismatch kind (f.kind out)) := by
  simp [firstFault, hshape, hlhs, hout]

theorem of_firstFault_eq_none (h : f.firstFault kind lhs [out] = none) :
    f.shape lhs = f.shape out ∧ f.kind lhs = kind ∧ f.kind out = kind := by
  obtain ⟨hshape, hkinds⟩ : f.shape out = f.shape lhs ∧ f.kind lhs = kind ∧ f.kind out = kind := by
    simpa [firstFault] using h
  exact ⟨hshape.symm, hkinds⟩

variable {verdict : Option Fault} {Ran Ran' : Written f.Carrier → Prop} {w w' : Written f.Carrier}

theorem Decided.refused {cause : Fault} (h : Decided verdict out Ran w) (hverdict : verdict = some cause) :
    w = .refused out cause := by
  obtain ⟨found, hfound, hw⟩ | ⟨hnone, -⟩ := h
  · cases hverdict.symm.trans hfound
    exact hw
  · cases hverdict.symm.trans hnone

/-- Under one verdict, two operations end alike if their loops do. -/
theorem Decided.eq_of_ran (h : Decided verdict out Ran w) (h' : Decided verdict out Ran' w')
    (hran : verdict = none → w = w') : w = w' := by
  obtain ⟨cause, hcause, hw⟩ | ⟨hnone, -⟩ := h
  · rw [hw, h'.refused hcause]
  · exact hran hnone

end Form

namespace Vector

/-- The boolean vector that has one byte at every place. -/
def filled (size : Nat) (byte : UInt8) : Vector := ofArray .boolean (Array.replicate size byte)

theorem size_filled (size : Nat) (byte : UInt8) : (filled size byte).size = size := Array.size_replicate

theorem zipWith_replicate {α β γ : Type} (g : α → β → γ) (l : Array α) (b : β) :
    Array.zipWith g l (Array.replicate l.size b) = l.map (g · b) := by
  refine Array.ext (by simp) fun i _ _ => ?_
  simp

/-! ### Outcomes -/

theorem logicScalar_ofArray (op : Logic) (byte : UInt8) {o l : Array UInt8} (hl : l.size = o.size) :
    logicScalar op (ofArray .boolean o) (ofArray .boolean l) byte = ⟨ofArray .boolean (l.map (op.apply · byte)), none⟩ :=
  transform_ofArray .scalar (op.apply · byte) hl

theorem logicScalar_decided (op : Logic) (out lhs : Vector) (byte : UInt8) :
    Form.Decided (f := .vector) (Form.vector.firstFault .boolean lhs [out]) out
      (Form.Transformed (f := .vector) .boolean .scalar (op.apply · byte) out lhs) (logicScalar op out lhs byte) :=
  Form.transform_decided (f := .vector) .boolean out lhs .scalar (op.apply · byte)

theorem logic_filled_decided (op : Logic) (out lhs : Vector) (byte : UInt8) :
    Form.Decided (f := .vector) (Form.vector.firstFault .boolean lhs [out]) out
      (Form.Combined (f := .vector) .boolean (fun a b => .ok (op.apply a b)) out lhs (filled lhs.size byte))
      (logic op out lhs (filled lhs.size byte)) := by
  have h := Form.combine_decided (f := .vector) .boolean out lhs (filled lhs.size byte) fun a b => .ok (op.apply a b)
  have hshape : Form.vector.shape (filled lhs.size byte) = Form.vector.shape lhs := size_filled ..
  have hkind : Form.vector.kind (filled lhs.size byte) = .boolean := rfl
  rw [Form.firstFault_cons hshape hkind] at h
  exact h

theorem logicScalar_eq_logic_filled (op : Logic) (out lhs : Vector) (byte : UInt8) :
    logicScalar op out lhs byte = logic op out lhs (filled lhs.size byte) := by
  refine (logicScalar_decided op out lhs byte).eq_of_ran (logic_filled_decided op out lhs byte) fun hnone => ?_
  obtain ⟨hsize, hlhs, hout⟩ := Form.of_firstFault_eq_none hnone
  obtain ⟨l, rfl⟩ := eq_ofBytes hlhs
  obtain ⟨o, rfl⟩ := eq_ofBytes hout
  have hl : l.size = o.size := hsize
  rw [logicScalar_ofArray op byte hl, ← zipWith_replicate fun a b => op.apply a b]
  exact (logic_ofArray op hl (Array.size_replicate.trans hl)).symm

/-- Logic with one byte, canonical or not, comes to the same as logic with the vector of the size of the left operand
    that is filled with this byte. Both are refused, with their output as it was, if the sizes of operand and output
    differ, or else for the kind of the operand or else of the output; on boolean vectors of one size both write at each
    place the operator's value there. -/
theorem logicScalar_agrees_with_broadcast (op : Logic) (out lhs : Vector) (byte : UInt8) :
    logicScalar op out lhs byte = logic op out lhs (filled lhs.size byte) ∧
    (lhs.size ≠ out.size → logicScalar op out lhs byte = .refused out (.lengthMismatch lhs.size out.size)) ∧
    (lhs.size = out.size → lhs.kind ≠ .boolean →
      logicScalar op out lhs byte = .refused out (.kindMismatch .boolean lhs.kind)) ∧
    (lhs.size = out.size → lhs.kind = .boolean → out.kind ≠ .boolean →
      logicScalar op out lhs byte = .refused out (.kindMismatch .boolean out.kind)) ∧
    ∀ o l : Array UInt8, out = ofArray .boolean o → lhs = ofArray .boolean l → lhs.size = out.size →
      logicScalar op out lhs byte = ⟨ofArray .boolean (l.map (op.apply · byte)), none⟩ := by
  have hdecided := logicScalar_decided op out lhs byte
  refine ⟨logicScalar_eq_logic_filled op out lhs byte, fun hsize => ?_, fun hsize hlhs => ?_,
    fun hsize hlhs hout => ?_, ?_⟩
  · exact hdecided.refused (Form.firstFault_of_shape (f := .vector) hsize)
  · exact hdecided.refused (Form.firstFault_of_operand (f := .vector) hsize hlhs)
  · exact hdecided.refused (Form.firstFault_of_output (f := .vector) hsize hlhs hout)
  · rintro o l rfl rfl hsize
    exact logicScalar_ofArray op byte hsize

/-- The byte 254 is true, and its lowest bit is zero: `and` and `xor` read it differently, in a vector and by itself.
    Operands at fault twice over are refused for their size. -/
theorem logicScalar_agrees_with_broadcast_of_even_byte :
    let v := fun bytes : Array UInt8 => ofArray .boolean bytes
    let integers := ofArray .integer #[.wrap .w32 1, .wrap .w32 0]
    logic .and (v #[9, 9]) (v #[4, 0]) (v #[254, 254]) = ⟨v #[1, 0], none⟩ ∧
      logic .xor (v #[9, 9]) (v #[3, 0]) (v #[254, 254]) = logicScalar .xor (v #[9, 9]) (v #[3, 0]) 254 ∧
      logicScalar .xor (v #[9, 9]) (v #[3, 0]) 254 = ⟨v #[1, 0], none⟩ ∧
      logic .or (v #[9]) integers (v #[254, 254]) = .refused (v #[9]) (.lengthMismatch 2 1) ∧
      logic .or (v #[9, 9]) integers (v #[254, 254]) = .refused (v #[9, 9]) (.kindMismatch .boolean .integer) ∧
      logic .or integers (v #[9, 9]) (v #[254, 254]) = .refused integers (.kindMismatch .boolean .integer) := by
  intro v integers
  obtain ⟨hand, -, -, -, hbytes⟩ := logicScalar_agrees_with_broadcast .and (v #[9, 9]) (v #[4, 0]) 254
  obtain ⟨hxor, -, -, -, hbytes'⟩ := logicScalar_agrees_with_broadcast .xor (v #[9, 9]) (v #[3, 0]) 254
  obtain ⟨hor, hsize, -⟩ := logicScalar_agrees_with_broadcast .or (v #[9]) integers 254
  obtain ⟨hor', -, hoperand, -⟩ := logicScalar_agrees_with_broadcast .or (v #[9, 9]) integers 254
  obtain ⟨hor'', -, -, houtput, -⟩ := logicScalar_agrees_with_broadcast .or integers (v #[9, 9]) 254
  have hmap : ∀ (g : UInt8 → UInt8) (a b : UInt8), #[a, b].map g = #[g a, g b] := fun g a b => by simp
  have hvalues := hbytes _ _ rfl rfl rfl
  have hvalues' := hbytes' _ _ rfl rfl rfl
  rw [hmap] at hvalues hvalues'
  exact ⟨hand.symm.trans hvalues, hxor.symm, hvalues', hor.symm.trans (hsize (by decide)),
    hor'.symm.trans (hoperand rfl (by decide)), hor''.symm.trans (houtput rfl rfl (by decide))⟩

end Vector

end TypedArrays
