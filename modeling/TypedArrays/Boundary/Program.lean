import TypedArrays.Boundary.Script
import TypedArrays.Boundary.Threshold

/-! Whole programs: a script, a log, and how the program ends.

The log is silent until it is started, at the outset or by a call. A filter then fixes what is logged. -/

namespace TypedArrays.Boundary

/-- A program: the filter of its log, how often it starts the log at first, the calls it makes, and
the status code it gives up with at the end, if it does. -/
structure Program where
  filter : Option String
  starts : Nat
  statements : List Script.Statement
  surrender : Option Int

/-- How a program ended, with the lines it wrote. -/
inductive Ending where
  | exited (code : Nat) (lines : List String)
  | aborted (lines : List String)

namespace Program

/-- The lines that events leave in the log. -/
def lines (threshold : Threshold) (started : Bool) (events : List Event) : List String :=
  if started then (events.filter fun e => Threshold.admits threshold e.level).map Event.line else []

/-- The last words of a program: a line in the log and a line of its own. -/
def farewell (threshold : Threshold) (started : Bool) (code : Int) : List String :=
  lines threshold started [.surrendered code] ++ ["RuntimeError: " ++ Status.messageOf code]

/-- Makes the remaining calls. The log may also be started by one of them. -/
def runFrom (threshold : Threshold) (surrender : Option Int) (started : Bool) (state : Script.State) (said : List String) :
    List Script.Statement → Ending
  | [] =>
    match surrender with
    | some code => .exited 1 (said ++ farewell threshold started code)
    | none => .exited 0 said
  | statement :: rest =>
    let (answer, after) := state.step statement
    let said := said ++ lines threshold started answer.events
    let started := started || statement.call matches .startLog
    match after with
    | none => .aborted said
    | some state => runFrom threshold surrender started state said rest

def run (p : Program) : Ending :=
  runFrom (Threshold.ofFilter p.filter) p.surrender (0 < p.starts) .initial [] p.statements

end Program

end TypedArrays.Boundary
