/-! Detailed texts: how values show the data they are made of. -/

namespace TypedArrays

/-- A title with named data, as detailed texts write records. -/
def recordText (title : String) (fields : List (String × String)) : String :=
  title ++ " \x7b " ++ ", ".intercalate (fields.map fun (name, value) => name ++ ": " ++ value) ++ " \x7d"

/-- Two numbers, as detailed texts write pairs. -/
def pairText (p : Nat × Nat) : String := "(" ++ toString p.1 ++ ", " ++ toString p.2 ++ ")"

end TypedArrays
