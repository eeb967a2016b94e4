namespace MacroGraph

namespace Log

inductive Level where
  | error
  | warn
  | info
  | debug
  | trace
  deriving DecidableEq, Repr

def Level.rank : Level → Nat
  | error => 0
  | warn => 1
  | info => 2
  | debug => 3
  | trace => 4

def Level.name : Level → String
  | error => "ERROR"
  | warn => "WARN"
  | info => "INFO"
  | debug => "DEBUG"
  | trace => "TRACE"

structure Entry where
  level : Level
  message : String
  fields : List (String × String) := []
  deriving DecidableEq, Repr

/-- Whether a log of that level, if there is one, takes entries of another. -/
def takes (level : Option Level) (entry : Level) : Bool :=
  match level with
  | none => false
  | some l => decide (entry.rank ≤ l.rank)

def taken (level : Option Level) (entries : List Entry) : List Entry :=
  entries.filter fun e => takes level e.level

end Log
end MacroGraph
