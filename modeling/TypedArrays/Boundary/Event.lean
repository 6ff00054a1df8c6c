import TypedArrays.Container
import TypedArrays.Interval

/-! Events: what calls across the boundary report about themselves. -/

namespace TypedArrays.Boundary

/-- How much an event matters, from the least. -/
inductive Level where
  | trace
  | debug
  | info
  | warn
  | error
deriving DecidableEq

namespace Level

def all : List Level := [trace, debug, info, warn, error]

/-- The word for the level in filters. -/
def name : Level → String
  | trace => "trace"
  | debug => "debug"
  | info => "info"
  | warn => "warn"
  | error => "error"

/-- The word for the level in reports. -/
def title : Level → String
  | trace => "TRACE"
  | debug => "DEBUG"
  | info => "INFO"
  | warn => "WARN"
  | error => "ERROR"

def rank : Level → Nat
  | trace => 0
  | debug => 1
  | info => 2
  | warn => 3
  | error => 4

end Level

/-- What a call reports. -/
inductive Event where
  | allocatedVector (kind : Kind) (size : Int)
  | allocatedMatrix (kind : Kind) (rows columns : Int)
  | freeing (form : Form)
  | materialized (range : Interval .w32) (step : Word .w32) (size : Nat)
  | rejected (range : Interval .w32) (step : Word .w32) (cause : Fault)
  | checkFailed (cause : Fault)
  | invalidOperands (entry : String) (cause : Fault)
  /-- The program gives up with a status code. -/
  | surrendered (code : Int)
deriving DecidableEq

namespace Event

def level : Event → Level
  | allocatedVector _ _ => .trace
  | allocatedMatrix _ _ _ => .trace
  | freeing _ => .trace
  | materialized _ _ _ => .debug
  | rejected _ _ _ => .debug
  | checkFailed _ => .debug
  | invalidOperands _ _ => .error
  | surrendered _ => .debug

def message : Event → String
  | allocatedVector _ _ => "allocated vector"
  | allocatedMatrix _ _ _ => "allocated matrix"
  | freeing form => "freeing " ++ form.name
  | materialized _ _ _ => "materialized step range"
  | rejected _ _ _ => "rejected step range"
  | checkFailed _ => "runtime check failed"
  | invalidOperands _ _ => "invalid operands"
  | surrendered code => Status.messageOf code

/-- The data of an event by name, in the order of reports. Allocating and freeing also report the
address of the container; it is left out, since containers have handles here and no addresses. -/
def fields : Event → List (String × String)
  | allocatedVector kind size => [("kind", kind.name), ("size", toString size)]
  | allocatedMatrix kind rows columns =>
    [("kind", kind.name), ("rows", toString rows), ("columns", toString columns)]
  | freeing _ => []
  | materialized range step size =>
    [("interval", range.text), ("by", toString step), ("size", toString size)]
  | rejected range step cause =>
    [("interval", range.text), ("by", toString step), ("error", cause.message)]
  | checkFailed cause => [("error", cause.message)]
  | invalidOperands entry cause => [("function", entry), ("error", cause.message)]
  | surrendered code => [("status", toString code)]

end Event

end TypedArrays.Boundary
