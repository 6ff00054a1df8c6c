import TypedArrays.Proofs.Logic

/-! Equality found by counting.

Two buffers are compared by counting the lanes that match and looking whether as many match as the left one has.
Lanes past the shorter buffer are not looked at, so the count alone says that the left buffer starts the right one;
with the comparison of sizes before it, that they are the same. Comparisons of vectors inherit this, and sizes
never make them fail. -/

namespace TypedArrays

namespace Kernel
variable {α : Type} [BEq α] [LawfulBEq α]

/-! ### Buffers -/

/-- As many lanes match as the left list has exactly when the right one starts with it. -/
theorem countP_zip_eq_length_iff {l r : List α} :
    (l.zip r).countP (fun p => p.1 == p.2) = l.length ↔ l <+: r := by
  induction l generalizing r with
  | nil => simp
  | cons a l ih =>
    cases r with
    | nil => simp
    | cons b r =>
      rw [List.zip_cons_cons, List.cons_prefix_cons, List.length_cons, ← ih]
      by_cases hab : a = b
      · simp [hab]
      · -- A lane that does not match is lost for good: those after it are at most as many as the rest.
        have hle : (l.zip r).countP (fun p => p.1 == p.2) ≤ l.length :=
          Nat.le_trans List.countP_le_length (List.length_zip ▸ Nat.min_le_left ..)
        simp only [List.countP_cons, beq_iff_eq, hab, if_false, Nat.add_zero, false_and, iff_false]
        exact Nat.ne_of_lt (Nat.lt_succ_of_le hle)

theorem equal_iff {l r : Array α} : equal l r = true ↔ l = r := by
  rw [equal, Bool.and_eq_true, beq_iff_eq, beq_iff_eq, ← Array.toList_inj]
  constructor
  · rintro ⟨hsize, hcount⟩
    exact (countP_zip_eq_length_iff.mp hcount).eq_of_length hsize
  · intro h
    exact ⟨congrArg List.length h, countP_zip_eq_length_iff.mpr (h ▸ List.prefix_rfl)⟩

theorem notEqual_iff {l r : Array α} : notEqual l r = true ↔ l ≠ r := by
  rw [notEqual, Bool.not_eq_true', ← Bool.not_eq_true, equal_iff]

theorem equal_eq_decide (l r : Array UInt8) : equal l r = decide (l = r) := by
  rw [Bool.eq_iff_iff, equal_iff, decide_eq_true_iff]

end Kernel

namespace Storage
variable {test : Array UInt8 → Array UInt8 → Bool} {lhs rhs : Storage}

/-! ### Storages -/

theorem compareBy_mk (l r : Array UInt8) : compareBy test ⟨.boolean, l⟩ ⟨.boolean, r⟩ = .ok (test l r) := by
  rw [compareBy, read_mk, read_mk]
  rfl

theorem compareBy_of_left (hl : lhs.kind ≠ .boolean) :
    compareBy test lhs rhs = .error (.kindMismatch .boolean lhs.kind) := by
  rw [compareBy, read_of_ne hl]
  rfl

theorem compareBy_of_right (hl : lhs.kind = .boolean) (hr : rhs.kind ≠ .boolean) :
    compareBy test lhs rhs = .error (.kindMismatch .boolean rhs.kind) := by
  rw [compareBy, read_of_eq hl, read_of_ne hr]
  rfl

theorem compareBy_ne_lengthMismatch (m n : Nat) : compareBy test lhs rhs ≠ .error (.lengthMismatch m n) := by
  intro h
  by_cases hl : lhs.kind = .boolean
  · by_cases hr : rhs.kind = .boolean
    · obtain ⟨l, rfl, -⟩ := eq_mk hl
      obtain ⟨r, rfl, -⟩ := eq_mk hr
      cases (compareBy_mk l r).symm.trans h
    · cases (compareBy_of_right hl hr).symm.trans h
  · cases (compareBy_of_left hl).symm.trans h

/-- On bytes, to look at every lane comes to the same as to count those that match. -/
theorem same_mk (l r : Array UInt8) : same ⟨.boolean, l⟩ ⟨.boolean, r⟩ = Kernel.equal l r := by
  have hall : ((l.toList.zip r.toList).all fun p => decide (p.1 = p.2)) = true ↔
      (l.toList.zip r.toList).countP (fun p => p.1 == p.2) = (l.toList.zip r.toList).length := by
    rw [List.all_eq_true, List.countP_eq_length]
    rfl
  have hsame : same ⟨.boolean, l⟩ ⟨.boolean, r⟩ =
    (l.size == r.size && (l.toList.zip r.toList).all fun p => decide (p.1 = p.2)) := rfl
  rw [Bool.eq_iff_iff, hsame, Kernel.equal, Bool.and_eq_true, Bool.and_eq_true, and_congr_right_iff]
  intro hsize
  rw [hall, List.length_zip, Array.length_toList, Array.length_toList, ← beq_iff_eq.mp hsize, Nat.min_self, beq_iff_eq]

end Storage

namespace Vector
variable {L R : Vector}

/-! ### Vectors -/

theorem eq_ofBytes (h : L.kind = .boolean) : ∃ l : Array UInt8, L = ofArray .boolean l := by
  obtain ⟨l, hl, -⟩ := Storage.eq_mk h
  exact ⟨l, eq_ofArray hl⟩

section Bytes
variable (l r : Array UInt8)

theorem equal_ofBytes : (ofArray .boolean l).equal (ofArray .boolean r) = .ok (decide (l = r)) := by
  rw [← Kernel.equal_eq_decide]
  exact Storage.compareBy_mk l r

theorem notEqual_ofBytes : (ofArray .boolean l).notEqual (ofArray .boolean r) = .ok (!decide (l = r)) := by
  rw [← Kernel.equal_eq_decide]
  exact Storage.compareBy_mk l r

theorem same_ofBytes : (ofArray .boolean l).same (ofArray .boolean r) = decide (l = r) := by
  rw [← Kernel.equal_eq_decide]
  exact Storage.same_mk l r

end Bytes

theorem equal_eq_true_iff (hL : L.kind = .boolean) (hR : R.kind = .boolean) : L.equal R = .ok true ↔ L = R := by
  constructor
  · intro h
    obtain ⟨l, rfl⟩ := eq_ofBytes hL
    obtain ⟨r, rfl⟩ := eq_ofBytes hR
    rw [equal_ofBytes] at h
    rw [of_decide_eq_true (Except.ok.inj h)]
  · rintro rfl
    obtain ⟨l, rfl⟩ := eq_ofBytes hL
    rw [equal_ofBytes, decide_eq_true rfl]

/-- Counting the lanes that match decides whether two byte buffers are the same. A comparison of vectors is refused
    for the kind of the left one or else of the right one, and otherwise has the answer for their bytes, which is
    also that of equality as values; it never fails for the sizes. Thus it is an equivalence of boolean vectors. -/
theorem counting_decides_equality :
    (∀ l r : Array UInt8, (Kernel.equal l r = true ↔ l = r) ∧ (Kernel.notEqual l r = true ↔ l ≠ r) ∧
      Kernel.notEqual l r = !Kernel.equal l r) ∧
    (∀ L R : Vector,
      (∀ compare ∈ [equal, notEqual],
        (L.kind ≠ .boolean → compare L R = .error (.kindMismatch .boolean L.kind)) ∧
        (L.kind = .boolean → R.kind ≠ .boolean → compare L R = .error (.kindMismatch .boolean R.kind)) ∧
        ∀ m n, compare L R ≠ .error (.lengthMismatch m n)) ∧
      (L.kind = .boolean → R.kind = .boolean →
        (∃ l r : Array UInt8, L = ofArray .boolean l ∧ R = ofArray .boolean r ∧
          L.equal R = .ok (decide (l = r)) ∧ L.notEqual R = .ok (!decide (l = r))) ∧
        L.equal R = .ok (L.same R) ∧ L.notEqual R = .ok (!L.same R) ∧
        (L.size ≠ R.size → L.equal R = .ok false ∧ L.notEqual R = .ok true))) ∧
    Equivalence fun L R : {v : Vector // v.kind = .boolean} => L.1.equal R.1 = .ok true := by
  refine ⟨fun l r => ⟨Kernel.equal_iff, Kernel.notEqual_iff, rfl⟩,
    fun L R => ⟨fun compare hcompare => ?_, fun hL hR => ?_⟩, ?_⟩
  · obtain ⟨test, rfl⟩ : ∃ test, compare = fun L R => Storage.compareBy test L.storage R.storage := by
      simp only [List.mem_cons, List.not_mem_nil, or_false] at hcompare
      rcases hcompare with rfl | rfl
      · exact ⟨Kernel.equal, rfl⟩
      · exact ⟨Kernel.notEqual, rfl⟩
    exact ⟨Storage.compareBy_of_left, Storage.compareBy_of_right, Storage.compareBy_ne_lengthMismatch⟩
  · obtain ⟨l, rfl⟩ := eq_ofBytes hL
    obtain ⟨r, rfl⟩ := eq_ofBytes hR
    rw [equal_ofBytes, notEqual_ofBytes, same_ofBytes]
    refine ⟨⟨l, r, rfl, rfl, rfl, rfl⟩, rfl, rfl, fun hsize => ?_⟩
    have hne : l ≠ r := fun h => hsize (congrArg Array.size h)
    rw [decide_eq_false hne]
    exact ⟨rfl, rfl⟩
  · have hiff : ∀ L R : {v : Vector // v.kind = .boolean}, L.1.equal R.1 = .ok true ↔ L.1 = R.1 := fun L R =>
      equal_eq_true_iff L.2 R.2
    refine ⟨fun L => (hiff L L).mpr rfl, fun {L R} h => (hiff R L).mpr ((hiff L R).mp h).symm, fun {L M R} h h' => ?_⟩
    exact (hiff L R).mpr (((hiff L M).mp h).trans ((hiff M R).mp h'))

/-- Two bytes against a vector that starts with them and against others of their size, and vectors of other kinds. -/
theorem counting_decides_equality_of_two_bytes :
    let v := fun bytes : Array UInt8 => ofArray .boolean bytes
    let integers := ofArray .integer #[.wrap .w32 1, .wrap .w32 0]
    let reals := ofArray .real #[Single.zero]
    (v #[1, 0]).equal (v #[1, 0, 1]) = .ok false ∧ (v #[1, 0]).notEqual (v #[1, 0, 1]) = .ok true ∧
      (v #[1, 0]).equal (v #[1, 0]) = .ok ((v #[1, 0]).same (v #[1, 0])) ∧ (v #[1, 0]).equal (v #[1, 0]) = .ok true ∧
      Kernel.notEqual (#[1, 0] : Array UInt8) #[255, 0] = true ∧
      (v #[1, 0]).notEqual integers = .error (.kindMismatch .boolean .integer) ∧
      reals.equal integers = .error (.kindMismatch .boolean .real) := by
  intro v integers reals
  obtain ⟨hbytes, hvectors, hequivalence⟩ := counting_decides_equality
  obtain ⟨-, -, -, hsizes⟩ := (hvectors (v #[1, 0]) (v #[1, 0, 1])).2 rfl rfl
  obtain ⟨hequal, hnotEqual⟩ := hsizes (by decide)
  obtain ⟨-, hsame, -⟩ := (hvectors (v #[1, 0]) (v #[1, 0])).2 rfl rfl
  refine ⟨hequal, hnotEqual, hsame, hequivalence.refl ⟨v #[1, 0], rfl⟩,
    (hbytes #[1, 0] #[255, 0]).2.1.mpr (by decide), ?_, ?_⟩
  · exact ((hvectors (v #[1, 0]) integers).1 notEqual (by simp)).2.1 rfl (by decide)
  · exact ((hvectors reals integers).1 equal (by simp)).1 (by decide)

end Vector

end TypedArrays
