import MacroGraph.Text.Letter

namespace MacroGraph

inductive Flow where
  | exec
  | data
  deriving DecidableEq, Repr

/-- Reads the name of a flow, blanks around it and the case of its letters aside. -/
def Flow.ofName? (name : String) : Option Flow :=
  let plain := lowerAscii (trim name)
  if plain = "exec" then some .exec
  else if plain = "data" then some .data
  else none

structure Connection where
  source : String
  sourcePin : String
  target : String
  targetPin : String
  flow : Flow
  deriving DecidableEq, Repr

namespace Connection

def isExec (c : Connection) : Bool := c.flow == .exec

def isData (c : Connection) : Bool := c.flow == .data

def output (c : Connection) : String × String := (c.source, c.sourcePin)

def input (c : Connection) : String × String := (c.target, c.targetPin)

def arrow : Flow → String
  | .exec => "=>"
  | .data => "->"

def display (c : Connection) : String :=
  c.source ++ "." ++ c.sourcePin ++ " " ++ arrow c.flow ++ " " ++ c.target ++ "." ++ c.targetPin

end Connection
end MacroGraph
