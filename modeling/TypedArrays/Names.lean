/-! Values under names. -/

namespace TypedArrays

/-- A value for some names. -/
structure Names (α : Type) where
  get? : String → Option α

namespace Names

variable {α : Type}

/-- No name has a value. -/
def empty : Names α := ⟨fun _ => none⟩

/-- Changes what one name has, to a value or to none. -/
def set (names : Names α) (name : String) (value : Option α) : Names α :=
  ⟨fun other => if other = name then value else names.get? other⟩

theorem get?_set (names : Names α) (name other : String) (value : Option α) :
    (names.set name value).get? other = if other = name then value else names.get? other := rfl

end Names

end TypedArrays
