import Mathlib.Algebra.Group.Nat.Defs
import TypedArrays.Proofs.Cursor
import TypedArrays.Proofs.Engine
import TypedArrays.Workspace

/-! Making containers near the limits of sizes.

Three limits meet here: the number of places of a shape is a size, a buffer has at most half as many bytes as
there are sizes, and dimensions from outside are signed words of 32 bits. What making a matrix comes to is one
case distinction on the exact product of its dimensions (`ofArray_eq`, `zeroed_eq`), and the number of bytes of
whatever is made is a size again. -/

namespace TypedArrays

theorem maxBytes_eq : maxBytes = 2 ^ 63 - 1 := rfl

theorem lt_sizeLimit_of_le_maxBytes {n : Nat} (h : n ≤ maxBytes) : n < sizeLimit :=
  Nat.lt_of_le_of_lt h (by decide)

namespace Kind

theorem bytes_pos (kind : Kind) : 0 < kind.bytes := by
  cases kind <;> decide

theorem bytes_le (kind : Kind) : kind.bytes ≤ 4 := by
  cases kind <;> decide

theorem le_mul_bytes (kind : Kind) (size : Nat) : size ≤ size * kind.bytes :=
  Nat.le_mul_of_pos_right size kind.bytes_pos

/-- Below `2 ^ 62` elements, only the wide kinds can ask for too many bytes. -/
theorem maxBytes_lt_iff (kind : Kind) {size : Nat} (h : size < 2 ^ 62) :
    maxBytes < size * kind.bytes ↔ (kind = .integer ∨ kind = .real) ∧ 2 ^ 61 ≤ size := by
  rw [maxBytes_eq]
  cases kind <;> simp [bytes] <;> omega

end Kind

theorem Word.toNat_le (a : Word .w32) : a.val.toNat ≤ 0x7fffffff := Int.toNat_le.mpr a.fits.2

/-- Two words of 32 bits have a product far from the largest size. -/
theorem Word.toNat_mul_lt (a b : Word .w32) : a.val.toNat * b.val.toNat < 2 ^ 62 :=
  calc a.val.toNat * b.val.toNat ≤ 0x7fffffff * 0x7fffffff := Nat.mul_le_mul a.toNat_le b.toNat_le
    _ < 2 ^ 62 := by decide

/-! ### What making comes to -/

theorem Storage.zeroed_of_le {kind : Kind} {size : Nat} (h : size * kind.bytes ≤ maxBytes) :
    zeroed kind size = .ok ⟨kind, Array.replicate size kind.zero⟩ := if_pos h

theorem Vector.allocate_of_nonneg {kind : Kind} {size : Int} (hsize : 0 ≤ size)
    (h : size.toNat * kind.bytes ≤ maxBytes) :
    allocate kind size = .ok (ofArray kind (Array.replicate size.toNat kind.zero)) := by
  unfold allocate zeroed
  rw [if_neg (Int.not_lt.mpr hsize), Storage.zeroed_of_le h]
  rfl

namespace Matrix

/-- The matrix of a shape that holds nothing but zeros. -/
def zeros (kind : Kind) (rows columns : Nat) : Matrix :=
  ⟨rows, columns, ⟨kind, Array.replicate (rows * columns) kind.zero⟩⟩

variable (kind : Kind) (rows columns : Nat)

theorem ofArray_eq (data : Array kind.Carrier) : ofArray kind rows columns data =
    if rows * columns < sizeLimit then
      if rows * columns = data.size then .ok ⟨rows, columns, ⟨kind, data⟩⟩
      else .error (.fault (.lengthMismatch (rows * columns) data.size))
    else .error (.trap .multiplyOverflow) := by
  unfold ofArray sizeOf
  by_cases hlimit : rows * columns < sizeLimit
  · rw [if_pos hlimit, if_pos hlimit]
    by_cases hdata : rows * columns = data.size
    · rw [if_pos hdata]
      exact if_pos hdata.symm
    · rw [if_neg hdata]
      exact if_neg (Ne.symm hdata)
  · rw [if_neg hlimit, if_neg hlimit]
    rfl

theorem zeroed_eq : zeroed kind rows columns =
    if rows * columns < sizeLimit then
      if rows * columns * kind.bytes ≤ maxBytes then .ok (zeros kind rows columns) else .error .capacityOverflow
    else .error .multiplyOverflow := by
  unfold zeroed sizeOf Storage.zeroed
  by_cases hlimit : rows * columns < sizeLimit
  · rw [if_pos hlimit, if_pos hlimit]
    by_cases hbytes : rows * columns * kind.bytes ≤ maxBytes
    · simp only [if_pos hbytes, bind, Except.bind, pure, Except.pure, zeros]
    · simp only [if_neg hbytes, bind, Except.bind]
  · rw [if_neg hlimit, if_neg hlimit]
    rfl

variable {kind rows columns} {data : Array kind.Carrier}

theorem ofArray_of_eq (h : rows * columns < sizeLimit) (hdata : rows * columns = data.size) :
    ofArray kind rows columns data = .ok ⟨rows, columns, ⟨kind, data⟩⟩ := by
  rw [ofArray_eq, if_pos h, if_pos hdata]

theorem ofArray_overflows_iff :
    ofArray kind rows columns data = .error (.trap .multiplyOverflow) ↔ sizeLimit ≤ rows * columns := by
  rw [← Nat.not_lt, ofArray_eq]
  split
  · rename_i hlimit
    split <;> simp [hlimit]
  · simp [*]

theorem ofArray_mismatches_iff :
    ofArray kind rows columns data = .error (.fault (.lengthMismatch (rows * columns) data.size)) ↔
      rows * columns < sizeLimit ∧ rows * columns ≠ data.size := by
  rw [ofArray_eq]
  split
  · split <;> simp [*]
  · simp [*]

theorem zeroed_of_le (h : rows * columns * kind.bytes ≤ maxBytes) :
    zeroed kind rows columns = .ok (zeros kind rows columns) := by
  have hlimit := lt_sizeLimit_of_le_maxBytes (Nat.le_trans (kind.le_mul_bytes _) h)
  rw [zeroed_eq, if_pos hlimit, if_pos h]

theorem zeroed_overflows_iff : zeroed kind rows columns = .error .multiplyOverflow ↔ sizeLimit ≤ rows * columns := by
  rw [← Nat.not_lt, zeroed_eq]
  split
  · split <;> simp [*]
  · simp [*]

theorem zeroed_exceeds_iff : zeroed kind rows columns = .error .capacityOverflow ↔
    rows * columns < sizeLimit ∧ maxBytes < rows * columns * kind.bytes := by
  rw [zeroed_eq]
  split
  · rename_i hlimit
    split
    · rename_i hbytes
      simp [Nat.not_lt.mpr hbytes]
    · rename_i hbytes
      simp [hlimit, Nat.lt_of_not_le hbytes]
  · simp [*]

theorem allocate_of_nonneg {rows columns : Int} (hrows : 0 ≤ rows) (hcolumns : 0 ≤ columns) :
    allocate kind rows columns = (zeroed kind rows.toNat columns.toNat).mapError .trap := by
  unfold allocate
  rw [if_neg (Int.not_lt.mpr hrows), if_neg (Int.not_lt.mpr hcolumns)]

theorem allocate_traps_iff {rows columns : Int} (hrows : 0 ≤ rows) (hcolumns : 0 ≤ columns) {trap : Trap} :
    allocate kind rows columns = .error (.trap trap) ↔ zeroed kind rows.toNat columns.toNat = .error trap := by
  rw [allocate_of_nonneg hrows hcolumns, mapError_eq_error]
  simp

end Matrix

/-! ### Bytes -/

section Bytes
variable {kind : Kind}

theorem Storage.zeroed_bytes {size : Nat} {s : Storage} (h : zeroed kind size = .ok s) : s.bytes ≤ maxBytes := by
  unfold zeroed at h
  split at h
  · rename_i hbytes
    cases h
    simpa [bytes, Storage.size] using hbytes
  · cases h

theorem Vector.zeroed_bytes {size : Nat} {v : Vector} (h : zeroed kind size = .ok v) : v.storage.bytes ≤ maxBytes := by
  obtain ⟨s, hs, rfl⟩ := map_eq_ok.mp h
  exact Storage.zeroed_bytes hs

theorem Vector.allocate_bytes {size : Int} {v : Vector} (h : allocate kind size = .ok v) :
    v.storage.bytes ≤ maxBytes := by
  unfold allocate at h
  split at h
  · cases h
  · exact zeroed_bytes (mapError_eq_ok.mp h)

theorem Matrix.zeroed_bytes {rows columns : Nat} {m : Matrix} (h : zeroed kind rows columns = .ok m) :
    m.storage.bytes ≤ maxBytes := by
  simp only [zeroed, bind_eq_ok, pure, Except.pure, Except.ok.injEq] at h
  obtain ⟨size, -, s, hs, rfl⟩ := h
  exact Storage.zeroed_bytes hs

theorem Matrix.allocate_bytes {rows columns : Int} {m : Matrix} (h : allocate kind rows columns = .ok m) :
    m.storage.bytes ≤ maxBytes := by
  unfold allocate at h
  split at h
  · cases h
  · split at h
    · cases h
    · exact zeroed_bytes (mapError_eq_ok.mp h)

theorem Matrix.storage_of_ofArray {rows columns : Nat} {data : Array kind.Carrier} {m : Matrix}
    (h : ofArray kind rows columns data = .ok m) : m.storage = ⟨kind, data⟩ := by
  rw [ofArray_eq] at h
  split at h
  · split at h
    · cases h
      rfl
    · cases h
  · cases h

theorem Progression.size_toArray_ofBounds {w : Width} {first last step : Word w} (hstep : 1 ≤ step.val) :
    (ofBounds first last step).toArray.size = count first last step := by
  have hlength := congrArg List.length ((at_ofBounds first last step).toArray (spans_count hstep))
  simpa using hlength

theorem Interval.stepRange_bytes {range : Interval .w32} {step : Word .w32} {v : Vector}
    (h : range.stepRange step = .ok v) : v.storage.bytes ≤ maxBytes := by
  rcases Int.lt_or_le step.val 1 with hstep | hstep
  · rw [range.stepRange_of_lt hstep] at h
    cases h
  · rw [range.stepRange_of_le hstep] at h
    cases h
    have hbytes : Progression.count range.lower range.upper step * Kind.integer.bytes ≤ maxBytes :=
      range.stepped_bytes_le step
    rw [← Progression.size_toArray_ofBounds hstep] at hbytes
    exact hbytes

end Bytes

namespace Workspace

/-- The bytes of the buffer that a recipe is given, if it is given one. -/
def Recipe.givenBytes : Recipe → Nat
  | vectorOfArray kind data => data.size * kind.bytes
  | vectorOfBools values => values.length
  | matrixOfArray kind _ _ data => data.size * kind.bytes
  | _ => 0

theorem build_bytes {recipe : Recipe} {c : Container} (h : build recipe = .ok c)
    (hgiven : recipe.givenBytes ≤ maxBytes) : c.storage.bytes ≤ maxBytes := by
  cases recipe with
  | vectorZeroed kind size =>
    obtain ⟨v, hv, rfl⟩ := map_eq_ok.mp h
    exact Vector.zeroed_bytes (mapError_eq_ok.mp hv)
  | vectorAllocate kind size =>
    obtain ⟨v, hv, rfl⟩ := map_eq_ok.mp h
    exact Vector.allocate_bytes hv
  | vectorOfArray kind data =>
    cases h
    exact hgiven
  | vectorOfBools values =>
    cases h
    have hbytes : (Container.ofVector (.ofBools values)).storage.bytes = values.length := by
      simp [Container.storage, Container.ofVector, Form.storage, Vector.ofBools, Vector.ofArray, Storage.bytes,
        Storage.size, Kind.bytes]
    rw [hbytes]
    exact hgiven
  | matrixZeroed kind rows columns =>
    obtain ⟨m, hm, rfl⟩ := map_eq_ok.mp h
    exact Matrix.zeroed_bytes (mapError_eq_ok.mp hm)
  | matrixAllocate kind rows columns =>
    obtain ⟨m, hm, rfl⟩ := map_eq_ok.mp h
    exact Matrix.allocate_bytes hm
  | matrixOfArray kind rows columns data =>
    obtain ⟨m, hm, rfl⟩ := map_eq_ok.mp h
    have hstorage : (Container.ofMatrix m).storage = ⟨kind, data⟩ := Matrix.storage_of_ofArray hm
    rw [hstorage]
    exact hgiven
  | stepRange range step =>
    obtain ⟨v, hv, rfl⟩ := map_eq_ok.mp h
    exact Interval.stepRange_bytes hv

end Workspace

/-! ### Every size -/

/-- What making a container comes to, for every kind and at all sizes, in terms of the exact product of the
    dimensions. Given elements must be as many as the shape has places. Zeros must fit in a buffer, which for
    dimensions from outside goes wrong for the wide kinds only. Whatever is made, from zeros or from a given
    buffer, the number of its bytes is a size. -/
theorem Container.sizes_decide_making (kind : Kind) :
    (∀ (rows columns : Nat) (data : Array kind.Carrier),
      let made := Matrix.ofArray kind rows columns data
      (made = .error (.trap .multiplyOverflow) ↔ 2 ^ 64 ≤ rows * columns) ∧
      (made = .error (.fault (.lengthMismatch (rows * columns) data.size)) ↔
        rows * columns < 2 ^ 64 ∧ rows * columns ≠ data.size) ∧
      (rows * columns < 2 ^ 64 → rows * columns = data.size →
        ∃ m, made = .ok m ∧ m.shape = (rows, columns) ∧ m.storage.read kind = .ok data)) ∧
    (∀ rows columns : Nat,
      let made := Matrix.zeroed kind rows columns
      (made = .error .multiplyOverflow ↔ 2 ^ 64 ≤ rows * columns) ∧
      (made = .error .capacityOverflow ↔ rows * columns < 2 ^ 64 ∧ 2 ^ 63 - 1 < rows * columns * kind.bytes) ∧
      (rows * columns * kind.bytes ≤ 2 ^ 63 - 1 → made = .ok (.zeros kind rows columns))) ∧
    (∀ rows columns : Word .w32,
      let made := Matrix.allocate kind rows.val columns.val
      (rows.val < 0 → made = .error (.fault (.negativeSize rows.val))) ∧
      (0 ≤ rows.val → columns.val < 0 → made = .error (.fault (.negativeSize columns.val))) ∧
      (0 ≤ rows.val → 0 ≤ columns.val →
        rows.val.toNat * columns.val.toNat < 2 ^ 64 ∧ made ≠ .error (.trap .multiplyOverflow) ∧
        (made = .error (.trap .capacityOverflow) ↔
          (kind = .integer ∨ kind = .real) ∧ 2 ^ 61 ≤ rows.val.toNat * columns.val.toNat) ∧
        (made ≠ .error (.trap .capacityOverflow) →
          made = .ok (.zeros kind rows.val.toNat columns.val.toNat)))) ∧
    (∀ size : Word .w32, 0 ≤ size.val →
      Vector.allocate kind size.val = .ok (.ofArray kind (Array.replicate size.val.toNat kind.zero))) ∧
    ∀ recipe c, Workspace.build recipe = .ok c → recipe.givenBytes ≤ 2 ^ 63 - 1 → c.storage.bytes < 2 ^ 64 := by
  refine ⟨fun rows columns data => ?_, fun rows columns => ?_, fun rows columns => ?_, fun size hsize => ?_,
    fun recipe c h hgiven => lt_sizeLimit_of_le_maxBytes (Workspace.build_bytes h hgiven)⟩
  · refine ⟨Matrix.ofArray_overflows_iff, Matrix.ofArray_mismatches_iff, fun hlimit hdata => ?_⟩
    exact ⟨_, Matrix.ofArray_of_eq hlimit hdata, rfl, Storage.read_mk kind data⟩
  · exact ⟨Matrix.zeroed_overflows_iff, Matrix.zeroed_exceeds_iff, Matrix.zeroed_of_le⟩
  · refine ⟨fun hrows => if_pos hrows, fun hrows hcolumns => ?_, fun hrows hcolumns => ?_⟩
    · exact (if_neg (Int.not_lt.mpr hrows)).trans (if_pos hcolumns)
    · have hsize := rows.toNat_mul_lt columns
      have hlimit : rows.val.toNat * columns.val.toNat < sizeLimit := Nat.lt_trans hsize (by decide)
      have hexceeds : Matrix.allocate kind rows.val columns.val = .error (.trap .capacityOverflow) ↔
          maxBytes < rows.val.toNat * columns.val.toNat * kind.bytes := by
        simp [Matrix.allocate_traps_iff hrows hcolumns, Matrix.zeroed_exceeds_iff, hlimit]
      refine ⟨hlimit, ?_, hexceeds.trans (kind.maxBytes_lt_iff hsize), fun hmade => ?_⟩
      · simp [Matrix.allocate_traps_iff hrows hcolumns, Matrix.zeroed_overflows_iff, hlimit]
      · rw [Ne, hexceeds, Nat.not_lt] at hmade
        exact (Matrix.allocate_of_nonneg hrows hcolumns).trans (mapError_eq_ok.mpr (Matrix.zeroed_of_le hmade))
  · refine Vector.allocate_of_nonneg hsize ?_
    calc size.val.toNat * kind.bytes ≤ 0x7fffffff * 4 := Nat.mul_le_mul size.toNat_le kind.bytes_le
      _ ≤ maxBytes := by decide

/-- Shapes just at the limits: `2 ^ 64` places, `2 ^ 63` bytes, no places at all next to the largest dimension,
    and the largest dimensions that can come from outside, for a wide kind and for a narrow one. -/
theorem Container.sizes_decide_making_at_limits :
    let greatest : Word .w32 := .wrap .w32 0x7fffffff
    let side := greatest.val.toNat
    Matrix.zeroed .integer (2 ^ 32) (2 ^ 32) = .error .multiplyOverflow ∧
      Matrix.zeroed .integer (2 ^ 31) (2 ^ 30) = .error .capacityOverflow ∧
      Matrix.ofArray .integer 2 3 #[] = .error (.fault (.lengthMismatch 6 0)) ∧
      (∃ m, Matrix.ofArray .integer 0 (2 ^ 64 - 1) #[] = .ok m ∧ m.shape = (0, 2 ^ 64 - 1)) ∧
      Matrix.allocate .integer greatest.val greatest.val = .error (.trap .capacityOverflow) ∧
      Matrix.allocate .boolean greatest.val greatest.val = .ok (.zeros .boolean side side) ∧
      (Container.ofMatrix (.zeros .boolean side side)).storage.bytes < 2 ^ 64 := by
  intro greatest side
  obtain ⟨hgiven, hzeroed, hallocate, -⟩ := sizes_decide_making .integer
  obtain ⟨-, -, hnarrow, -, hbytes⟩ := sizes_decide_making .boolean
  obtain ⟨m, hm, hshape, -⟩ := (hgiven 0 (2 ^ 64 - 1) #[]).2.2 (by simp) (by simp)
  have hwide := ((hallocate greatest greatest).2.2 (by decide) (by decide)).2.2.1
  obtain ⟨-, -, hexceeds, hmade⟩ := (hnarrow greatest greatest).2.2 (by decide) (by decide)
  have hok := hmade (by simp [hexceeds])
  have hbuild : Workspace.build (.matrixAllocate .boolean greatest.val greatest.val) =
      .ok (.ofMatrix (.zeros .boolean side side)) := by
    rw [Workspace.build, hok]
    rfl
  refine ⟨(hzeroed _ _).1.mpr (by decide), (hzeroed _ _).2.1.mpr (by decide), (hgiven 2 3 #[]).2.1.mpr (by decide),
    ⟨m, hm, hshape⟩, hwide.mpr (by decide), hok, ?_⟩
  exact hbytes (.matrixAllocate .boolean greatest.val greatest.val) _ hbuild (Nat.zero_le _)

end TypedArrays
