import TypedArrays.Boundary.Event

/-! Thresholds: which events reach the log, the filters that say so, and the lines that are written.

What becomes of an event is the log's affair and not that of the calls: only a running program
(`Program.run`) reads filters and writes lines, and both stand here in their plainest form. -/

namespace TypedArrays.Boundary

/-- The least level that is logged; `none` if nothing is. -/
abbrev Threshold := Option Level

namespace Threshold

/-- Where the events of this library say they come from. -/
def origin : String := "dash_ffi"

/-- The threshold without a filter. -/
def standard : Threshold := some .warn

/-- A level by name, or `off`. -/
def ofName? (name : String) : Option Threshold :=
  if name = "off" then some none else (Level.all.find? (·.name = name)).map some

/-- The threshold that a filter sets: a level, or a level for one origin, and then other origins are
not logged. A text that is no filter counts as none. Filters that list several levels, or that name
only part of an origin, are beyond its scope. -/
def ofFilter (filter : Option String) : Threshold :=
  match filter with
  | none => standard
  | some text =>
    match text.splitOn "=" with
    | [name] => (ofName? name).getD standard
    | [source, name] =>
      match ofName? name with
      | some threshold => if source = origin then threshold else if source = "" then standard else none
      | none => standard
    | _ => standard

/-- Whether events of a level are logged. -/
def admits (threshold : Threshold) (level : Level) : Bool :=
  threshold.any fun least => least.rank ≤ level.rank

end Threshold

namespace Event

/-- Whether lines put a datum between quotation marks. -/
def isQuoted (name : String) : Bool := name == "function"

/-- The event as one line, without the time and the address that a log may add. -/
def line (e : Event) : String :=
  let datum : String × String → String := fun (name, value) =>
    " " ++ name ++ "=" ++ if isQuoted name then "\"" ++ value ++ "\"" else value
  e.level.title ++ " " ++ e.message ++ String.join (e.fields.map datum)

end Event

end TypedArrays.Boundary
