import MacroGraph.Value

namespace MacroGraph

inductive NodeKind where
  | start
  | delay
  | mouseClick
  | mouseMove
  | keyPress
  | typeString
  | loop
  | whileLoop
  | ifStatement
  | numberLiteral
  | stringLiteral
  | math
  | compare
  deriving DecidableEq, Repr

namespace NodeKind

def all : List NodeKind :=
  [start, delay, mouseClick, mouseMove, keyPress, typeString, loop, whileLoop, ifStatement,
   numberLiteral, stringLiteral, math, compare]

/-- The name that stored macros use. -/
def typeName : NodeKind → String
  | start => "start"
  | delay => "delay"
  | mouseClick => "mouse_click"
  | mouseMove => "mouse_move"
  | keyPress => "key_press"
  | typeString => "type_string"
  | loop => "loop"
  | whileLoop => "while_loop"
  | ifStatement => "if_statement"
  | numberLiteral => "number_literal"
  | stringLiteral => "string_literal"
  | math => "math"
  | compare => "compare"

def ofTypeName? (name : String) : Option NodeKind :=
  all.find? fun k => k.typeName == name

/-- Kinds that only produce data have no exec pins. -/
def isDataOnly : NodeKind → Bool
  | numberLiteral | stringLiteral | math | compare => true
  | _ => false

def isLoop : NodeKind → Bool
  | loop | whileLoop => true
  | _ => false

theorem ofTypeName?_typeName (k : NodeKind) : ofTypeName? k.typeName = some k := by
  cases k <;> decide

theorem typeName_of_ofTypeName? {name : String} {k : NodeKind}
    (h : ofTypeName? name = some k) : k.typeName = name := by
  have := List.find?_some h
  simpa using this

theorem isLoop_iff {k : NodeKind} : k.isLoop = true ↔ k = .loop ∨ k = .whileLoop := by
  cases k <;> decide

end NodeKind

namespace Pin

/-- Fired by every node that does not branch. -/
def exec : String := "exec"

/-- Leads into the part that a loop repeats. -/
def loopBody : String := "Loop Body"

def completed : String := "Completed"

def onTrue : String := "True"

def onFalse : String := "False"

/-- The iteration of a bounded loop, while its body is walked. -/
def index : String := "Index"

end Pin

structure Node where
  id : String
  kind : NodeKind
  values : List (String × Value) := []
  deriving DecidableEq, Repr

namespace Node

def value? (n : Node) (field : String) : Option Value := n.values.lookup field

/-- The stored value of a field, or the fallback when it is absent or null. -/
def valueOr (n : Node) (field : String) (fallback : Value) : Value :=
  ((n.value? field).getD .null).orElse fallback

/-- An option's name in its plain spelling: blanks around it dropped, lower case, an
underscore for each space. -/
def plainName (s : String) : String :=
  String.ofList ((lowerCase (trim s)).toList.map fun c => if c = ' ' then '_' else c)

/-- The plain spelling of an option field such as `Unit` or `Operator`. -/
def option (n : Node) (field fallback : String) : String :=
  plainName (n.valueOr field (.text fallback)).toText

end Node
end MacroGraph
