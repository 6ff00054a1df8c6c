import Mathlib.Data.Set.Function
import TypedArrays.Proofs.Boundary.Heap
import TypedArrays.Proofs.Workspace

/-! Rows and columns of a matrix against the flat order of its elements.

Places are numbered row after row, so a place and its row and column determine each other by division. A
matrix that has an element for every place can then be looked at both ways: the elements by row and column,
listed row after row, are the elements in flat order, and a write at a place is seen in one row and column
alone. All matrices that programs can reach are of this kind. -/

namespace TypedArrays

theorem Storage.write_mk {kind : Kind} {data : Array kind.Carrier} {index : Nat} (h : index < data.size)
    (value : kind.Carrier) : write ⟨kind, data⟩ kind index value = .ok (some ⟨kind, data.set index value⟩) := by
  simp [write, h, bind, Except.bind, pure, Except.pure]

namespace Matrix

/-! ### Places -/

section Places
variable {m : Matrix} {row column t : Nat}

theorem place_div (hcolumn : column < m.columns) : m.place row column / m.columns = row := by
  rw [place, Nat.mul_comm, Nat.mul_add_div (Nat.zero_lt_of_lt hcolumn), Nat.div_eq_of_lt hcolumn, Nat.add_zero]

theorem place_mod (hcolumn : column < m.columns) : m.place row column % m.columns = column := by
  rw [place, Nat.mul_comm, Nat.mul_add_mod, Nat.mod_eq_of_lt hcolumn]

theorem place_div_mod (m : Matrix) (t : Nat) : m.place (t / m.columns) (t % m.columns) = t :=
  Nat.div_add_mod' t m.columns

theorem div_lt_rows (h : t < m.rows * m.columns) : t / m.columns < m.rows :=
  Nat.div_lt_of_lt_mul (Nat.mul_comm m.rows m.columns ▸ h)

theorem mod_lt_columns (h : t < m.rows * m.columns) : t % m.columns < m.columns := by
  refine Nat.mod_lt t (Nat.pos_of_ne_zero fun hzero => ?_)
  simp [hzero] at h

theorem place_eq_iff (hcolumn : column < m.columns) :
    m.place row column = t ↔ row = t / m.columns ∧ column = t % m.columns := by
  constructor
  · rintro rfl
    exact ⟨(place_div hcolumn).symm, (place_mod hcolumn).symm⟩
  · rintro ⟨rfl, rfl⟩
    exact place_div_mod m t

theorem place_bijOn (hm : Form.matrix.WellFormed m) : Set.BijOn (fun p : Nat × Nat => m.place p.1 p.2)
    {p | p.1 < m.rows ∧ p.2 < m.columns} {t | t < m.rows * m.columns} := by
  refine ⟨fun p hp => ?_, fun p hp q hq h => ?_, fun t ht => ?_⟩
  · exact hm.1 ▸ place_lt_size hm hp.1 hp.2
  · obtain ⟨hrow, hcolumn⟩ := (place_eq_iff hp.2).mp h
    rw [place_div hq.2] at hrow
    rw [place_mod hq.2] at hcolumn
    exact Prod.ext hrow hcolumn
  · exact ⟨(t / m.columns, t % m.columns), ⟨div_lt_rows ht, mod_lt_columns ht⟩, place_div_mod m t⟩

end Places

/-! ### Elements -/

section Elements
variable {m : Matrix} {kind : Kind} {data : Array kind.Carrier} {row column t : Nat}

theorem get?_of_storage (h : m.storage = ⟨kind, data⟩) (hrow : row < m.rows) (hcolumn : column < m.columns) :
    m.get? kind row column = data[m.place row column]? := by
  simp only [get?, if_pos (And.intro hrow hcolumn), h, Storage.read_mk]

theorem get?_of_outside (kind : Kind) (h : ¬(row < m.rows ∧ column < m.columns)) : m.get? kind row column = none :=
  if_neg h

theorem get?_of_kind (h : m.kind ≠ kind) (row column : Nat) : m.get? kind row column = none := by
  rw [get?, Storage.read_of_ne h]
  exact ite_self none

theorem isSome_get?_iff (hm : Form.matrix.WellFormed m) :
    (m.get? kind row column).isSome ↔ m.kind = kind ∧ row < m.rows ∧ column < m.columns := by
  by_cases hkind : m.kind = kind
  · subst hkind
    by_cases hinside : row < m.rows ∧ column < m.columns
    · obtain ⟨value, hvalue⟩ := get?_eq_some hm hinside.1 hinside.2
      simp [hvalue, hinside]
    · simp [get?_of_outside m.kind hinside, hinside]
  · simp [get?_of_kind hkind, hkind]

/-- The elements by row and column, row after row. -/
def listing (m : Matrix) (kind : Kind) : List (Option kind.Carrier) :=
  (List.range m.rows).flatMap fun row => (List.range m.columns).map (m.get? kind row)

section Listing
variable (hm : Form.matrix.WellFormed m) (h : m.storage = ⟨kind, data⟩)
include hm h

theorem size_of_storage : data.size = m.rows * m.columns := by
  rw [← hm.1, size, h]
  rfl

/-- One row is a run of elements as long as there are columns. -/
theorem row_eq (hrow : row < m.rows) : (List.range m.columns).map (m.get? kind row) =
    ((data.toList.drop (row * m.columns)).take m.columns).map some := by
  refine List.ext_getElem? fun column => ?_
  by_cases hcolumn : column < m.columns
  · have hplace : row * m.columns + column < data.size :=
      size_of_storage hm h ▸ hm.1 ▸ place_lt_size hm hrow hcolumn
    simp [hcolumn, get?_of_storage h hrow hcolumn, place, hplace]
  · simp [hcolumn]

theorem rows_eq {n : Nat} (hn : n ≤ m.rows) :
    ((List.range n).flatMap fun row => (List.range m.columns).map (m.get? kind row)) =
      (data.toList.take (n * m.columns)).map some := by
  induction n with
  | zero => simp
  | succ n ih =>
    rw [List.range_succ, List.flatMap_append, ih (Nat.le_of_succ_le hn), List.flatMap_singleton, row_eq hm h hn,
      Nat.succ_mul, List.take_add, List.map_append]

theorem listing_eq : m.listing kind = data.toList.map some := by
  rw [listing, rows_eq hm h (Nat.le_refl _), ← size_of_storage hm h, ← Array.length_toList, List.take_length]

end Listing

/-- A write at a place is seen in the row and column of that place, and nowhere else. -/
theorem get?_write (hm : Form.matrix.WellFormed m) (h : m.storage = ⟨kind, data⟩) (ht : t < data.size)
    (value : kind.Carrier) (row column : Nat) : (m.withStorage ⟨kind, data.set t value⟩).get? kind row column =
      if row = t / m.columns ∧ column = t % m.columns then some value else m.get? kind row column := by
  by_cases hinside : row < m.rows ∧ column < m.columns
  · obtain ⟨hrow, hcolumn⟩ := hinside
    calc (m.withStorage ⟨kind, data.set t value⟩).get? kind row column
        = (data.set t value)[m.place row column]? := get?_of_storage rfl hrow hcolumn
      _ = if t = m.place row column then some value else data[m.place row column]? := Array.getElem?_set ht
      _ = if row = t / m.columns ∧ column = t % m.columns then some value else m.get? kind row column :=
        if_congr (eq_comm.trans (place_eq_iff hcolumn)) rfl (get?_of_storage h hrow hcolumn).symm
  · have hother : ¬(row = t / m.columns ∧ column = t % m.columns) := by
      rintro ⟨rfl, rfl⟩
      rw [size_of_storage hm h] at ht
      exact hinside ⟨div_lt_rows ht, mod_lt_columns ht⟩
    rw [if_neg hother, get?_of_outside kind hinside]
    exact get?_of_outside (m := m.withStorage ⟨kind, data.set t value⟩) kind hinside

end Elements

/-! ### Reachable matrices -/

/-- The matrices that a run of commands leaves under a name, or completed calls behind a handle. -/
inductive Reachable : Matrix → Prop where
  | named {m : Matrix} {commands : List Workspace.Command} {name : String}
      (found : (Workspace.run .empty commands).2.get? name = some (.ofMatrix m)) : Reachable m
  | live {m : Matrix} {heap : Boundary.Heap} {p : Boundary.Handle .matrix} (reached : heap.Reachable)
      (found : heap.get? p = some m) : Reachable m

theorem Reachable.wellFormed {m : Matrix} (h : m.Reachable) : Form.matrix.WellFormed m := by
  cases h with
  | named found => exact Workspace.wellFormed_empty.run _ _ _ found
  | live reached found => exact reached.wellFormed found

/-- Rows and columns of any reachable matrix, for a caller who names any kind. Places are in bijection with
    rows and columns. There is an element in a row and column exactly if the kind is right and both are inside
    the shape, so there is none if the shape is empty. Listed row after row, these elements are the elements in
    flat order. A write at a place is seen in one row and column, and all others are as before. -/
theorem row_major_addressing_is_bijective {m : Matrix} (hm : m.Reachable) (kind : Kind) :
    Set.BijOn (fun p : Nat × Nat => m.place p.1 p.2) {p | p.1 < m.rows ∧ p.2 < m.columns}
      {t | t < m.rows * m.columns} ∧
    (∀ row column, (m.get? kind row column).isSome ↔ m.kind = kind ∧ row < m.rows ∧ column < m.columns) ∧
    (m.rows = 0 ∨ m.columns = 0 → ∀ row column, m.get? kind row column = none) ∧
    (m.kind = kind → ∃ data, m.storage.read kind = .ok data ∧ m.listing kind = data.toList.map some) ∧
    (m.kind = kind → ∀ t < m.rows * m.columns, ∀ value, ∃ s, m.storage.write kind t value = .ok (some s) ∧
      (m.withStorage s).shape = m.shape ∧
      (m.withStorage s).get? kind (t / m.columns) (t % m.columns) = some value ∧
      ∀ row column, (row, column) ≠ (t / m.columns, t % m.columns) →
        (m.withStorage s).get? kind row column = m.get? kind row column) := by
  have hformed := hm.wellFormed
  refine ⟨place_bijOn hformed, fun row column => isSome_get?_iff hformed, fun hempty row column => ?_,
    fun hkind => ?_, fun hkind t ht value => ?_⟩
  · refine get?_of_outside kind fun hinside => ?_
    rcases hempty with hrows | hcolumns
    · exact Nat.not_lt_zero row (hrows ▸ hinside.1)
    · exact Nat.not_lt_zero column (hcolumns ▸ hinside.2)
  · obtain ⟨data, hdata, -⟩ := Storage.eq_mk hkind
    exact ⟨data, hdata ▸ Storage.read_mk kind data, listing_eq hformed hdata⟩
  · obtain ⟨data, hdata, -⟩ := Storage.eq_mk hkind
    have hlt : t < data.size := size_of_storage hformed hdata ▸ ht
    refine ⟨⟨kind, data.set t value⟩, ?_, rfl, ?_, fun row column hne => ?_⟩
    · rw [hdata]
      exact Storage.write_mk hlt value
    · rw [get?_write hformed hdata hlt, if_pos ⟨rfl, rfl⟩]
    · rw [get?_write hformed hdata hlt, if_neg]
      rintro ⟨rfl, rfl⟩
      exact hne rfl

/-- Two rows of three bytes, of which the fifth is written, next to a matrix of three columns without rows. -/
theorem row_major_addressing_is_bijective_of_two_by_three :
    let m : Matrix := ⟨2, 3, ⟨.boolean, #[10, 20, 30, 40, 50, 60]⟩⟩
    let empty : Matrix := ⟨0, 3, ⟨.boolean, #[]⟩⟩
    m.Reachable ∧ empty.Reachable ∧ m.listing .boolean = [some 10, some 20, some 30, some 40, some 50, some 60] ∧
      (∀ column, m.get? .integer 1 column = none) ∧ (∀ row column, empty.get? .boolean row column = none) ∧
      ∃ s, m.storage.write .boolean 4 99 = .ok (some s) ∧ (m.withStorage s).get? .boolean 1 1 = some 99 ∧
        (m.withStorage s).get? .boolean 1 2 = m.get? .boolean 1 2 := by
  intro m empty
  have hm : m.Reachable :=
    @Reachable.named m [.make "m" (.matrixOfArray .boolean 2 3 #[10, 20, 30, 40, 50, 60])] "m" rfl
  have hempty : empty.Reachable := @Reachable.named empty [.make "empty" (.matrixZeroed .boolean 0 3)] "empty" rfl
  obtain ⟨-, -, -, hlisting, hwrite⟩ := row_major_addressing_is_bijective hm .boolean
  obtain ⟨-, hsome, -⟩ := row_major_addressing_is_bijective hm .integer
  obtain ⟨-, -, hnone, -⟩ := row_major_addressing_is_bijective hempty .boolean
  obtain ⟨s, hs, -, hvalue, hothers⟩ := hwrite rfl 4 (by decide) 99
  have hplace : 4 / m.columns = 1 ∧ 4 % m.columns = 1 := by decide
  rw [hplace.1, hplace.2] at hvalue
  obtain ⟨data, hdata, hlist⟩ := hlisting rfl
  cases hdata
  refine ⟨hm, hempty, hlist, fun column => ?_, hnone (Or.inl rfl), s, hs, hvalue, hothers 1 2 (by decide)⟩
  rw [← Option.not_isSome_iff_eq_none, hsome]
  exact fun h => nomatch h.1

end Matrix

end TypedArrays
