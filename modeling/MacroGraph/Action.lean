import MacroGraph.Number.Text
import MacroGraph.Text.Letter
import MacroGraph.Text.Quoted
import MacroGraph.Log

namespace MacroGraph

inductive MouseButton where
  | left
  | right
  | middle
  deriving DecidableEq, Repr

namespace MouseButton

def name : MouseButton → String
  | left => "left"
  | right => "right"
  | middle => "middle"

/-- Reads a name, blanks around it and the case of its letters aside. Unknown names are
the left button. -/
def ofName (s : String) : MouseButton :=
  let plain := lowerAscii (trim s)
  if plain = "right" then right
  else if plain = "middle" then middle
  else left

end MouseButton

/-- A request to the world outside. Times are in seconds. -/
inductive Action where
  | click (button : MouseButton) (double : Bool)
  | move (x y : Int) (duration : Binary64)
  | key (name : String)
  | combo (names : List String)
  | type (text : String) (delay : Binary64)
  | sleep (duration : Binary64)
  deriving DecidableEq, Repr

inductive ActionError where
  | failed (action reason : String)
  | unsupported (action : String)
  deriving DecidableEq, Repr

namespace ActionError

def message : ActionError → String
  | failed action reason => "Action '" ++ action ++ "' failed: " ++ reason
  | unsupported action => "Action '" ++ action ++ "' is not supported by this backend"

def describe : ActionError → String
  | failed action reason =>
    "Failed \x7b action: " ++ quoted action ++ ", message: " ++ quoted reason ++ " \x7d"
  | unsupported action => "Unsupported(" ++ quoted action ++ ")"

end ActionError

/-- A failure that ended a run, with the node whose action it was. -/
structure NodeFault where
  id : String
  typeName : String
  cause : ActionError
  deriving DecidableEq, Repr

namespace NodeFault

def message (f : NodeFault) : String :=
  "Node '" ++ f.id ++ "' (" ++ f.typeName ++ ") faulted: " ++ f.cause.message

def describe (f : NodeFault) : String :=
  "NodeFault \x7b node_id: " ++ quoted f.id ++ ", node_type: " ++ quoted f.typeName ++
    ", source: " ++ f.cause.describe ++ " \x7d"

end NodeFault

inductive Outcome where
  | completed
  | stopped
  deriving DecidableEq, Repr

def Outcome.name : Outcome → String
  | completed => "Completed"
  | stopped => "Stopped"

abbrev RunResult := Except NodeFault Outcome

def describeResult : RunResult → String
  | .ok outcome => "Ok(" ++ outcome.name ++ ")"
  | .error fault => "Err(" ++ fault.describe ++ ")"

inductive Notice where
  | cleared
  | entered (id : String)
  deriving DecidableEq, Repr

def Notice.describe : Notice → String
  | cleared => "HighlightsCleared"
  | entered id => "NodeEntered(" ++ quoted id ++ ")"

inductive Event where
  | notice (n : Notice)
  | action (a : Action)
  deriving DecidableEq, Repr

end MacroGraph
