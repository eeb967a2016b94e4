import MacroGraph.Node
import MacroGraph.Connection
import MacroGraph.Graph.Cycle

/-!
Documents: macro graphs that passed every structural check, with their connections indexed
by pin. `Document.build` reports the first check that fails.
-/
namespace MacroGraph

/-- Why nodes and connections do not make a document. -/
inductive DocumentError where
  | startMissing (id : String)
  | notAStart (id typeName : String)
  | duplicateNode (id : String)
  | nodeMissing (id requiredBy : String)
  | unknownType (id typeName : String)
  | badConnection (id pin reason : String)
  | dataCycle (id : String)
  | loopReentry (id : String)
  deriving DecidableEq, Repr

def DocumentError.message : DocumentError → String
  | startMissing id => "Start node '" ++ id ++ "' not found in the document"
  | notAStart id typeName =>
    "Node '" ++ id ++ "' is designated as the start node but has type '" ++ typeName ++ "'"
  | duplicateNode id => "Node id '" ++ id ++ "' appears more than once"
  | nodeMissing id requiredBy =>
    "Node '" ++ id ++ "' not found, which is required by a connection from node '" ++
      requiredBy ++ "'"
  | unknownType id typeName =>
    "Node '" ++ id ++ "' has an unregistered or invalid node type: '" ++ typeName ++ "'"
  | badConnection id pin reason =>
    "A connection on node '" ++ id ++ "' pin '" ++ pin ++ "' is invalid: " ++ reason
  | dataCycle id => "Data connections form a cycle through node '" ++ id ++ "'"
  | loopReentry id => "The body of loop '" ++ id ++ "' leads back into the loop itself"

/-- Connections by pin: the target of each exec output and the source of each data input. -/
structure PinIndex where
  exec : List ((String × String) × String) := []
  data : List ((String × String) × (String × String)) := []
  deriving DecidableEq, Repr

/-- Copies of one document share its serial number and differ at most in their start. -/
structure Document where
  serial : Nat
  nodes : List Node
  connections : List Connection
  start : String
  index : PinIndex
  deriving DecidableEq, Repr

def nodeIn? (nodes : List Node) (id : String) : Option Node :=
  nodes.find? fun n => n.id == id

namespace Document

def duplicate? : List String → List Node → Option String
  | _, [] => none
  | seen, n :: rest => if seen.contains n.id then some n.id else duplicate? (n.id :: seen) rest

def checkStart (nodes : List Node) (start : String) : Except DocumentError Unit :=
  match nodeIn? nodes start with
  | none => .error (.startMissing start)
  | some n =>
    if n.kind = .start then .ok () else .error (.notAStart n.id n.kind.typeName)

def noExecPins (n : Node) (pin : String) : DocumentError :=
  .badConnection n.id pin ("'" ++ n.kind.typeName ++ "' nodes have no exec pins")

/-- An exec connection joins nodes with exec pins and is the only one at its output. -/
def addExec (index : PinIndex) (c : Connection) (source target : Node) :
    Except DocumentError PinIndex :=
  if source.kind.isDataOnly then .error (noExecPins source c.sourcePin)
  else if target.kind.isDataOnly then .error (noExecPins target c.targetPin)
  else match index.exec.lookup c.output with
    | some _ => .error (.badConnection c.source c.sourcePin
        "exec output has more than one outgoing connection")
    | none => .ok { index with exec := index.exec ++ [(c.output, c.target)] }

/-- Of several data connections into one input the first counts. -/
def addData (index : PinIndex) (c : Connection) : PinIndex :=
  match index.data.lookup c.input with
  | some _ => index
  | none => { index with data := index.data ++ [(c.input, c.output)] }

def addConnection (nodes : List Node) (index : PinIndex) (c : Connection) :
    Except DocumentError PinIndex :=
  match nodeIn? nodes c.source, nodeIn? nodes c.target with
  | none, _ => .error (.nodeMissing c.source c.target)
  | some _, none => .error (.nodeMissing c.target c.source)
  | some source, some target =>
    match c.flow with
    | .exec => addExec index c source target
    | .data => .ok (addData index c)

def addConnections (nodes : List Node) : PinIndex → List Connection →
    Except DocumentError PinIndex
  | index, [] => .ok index
  | index, c :: rest =>
    match addConnection nodes index c with
    | .error e => .error e
    | .ok index => addConnections nodes index rest

def isDataOnly (nodes : List Node) (id : String) : Bool :=
  ((nodeIn? nodes id).map fun n => n.kind.isDataOnly).getD false

/-- From each data-only node to the data-only nodes that feed its inputs. Evaluation goes
on along these edges alone. -/
def feedEdges (nodes : List Node) (index : PinIndex) : Edges :=
  (index.data.map fun e => (e.1.1, e.2.1)).filter fun e =>
    isDataOnly nodes e.1 && isDataOnly nodes e.2

def execEdges (index : PinIndex) : Edges :=
  index.exec.map fun e => (e.1.1, e.2)

/-- A node whose value would depend on itself. -/
def dataCycle? (nodes : List Node) (index : PinIndex) : Option String :=
  let edges := feedEdges nodes index
  cycleName? edges (edges.map Prod.fst)

/-- Whether the body of a loop leads back to the loop. -/
def reenters (index : PinIndex) (n : Node) : Bool :=
  n.kind.isLoop &&
    match index.exec.lookup (n.id, Pin.loopBody) with
    | none => false
    | some body => (reachable (execEdges index) body).contains n.id

def reentered? (nodes : List Node) (index : PinIndex) : Option String :=
  (nodes.find? (reenters index)).map Node.id

/-- Checks nodes, start and connections in this order, then that no value depends on itself
and that no loop is entered from its own body. -/
def build (serial : Nat) (nodes : List Node) (connections : List Connection)
    (start : String) : Except DocumentError Document :=
  match duplicate? [] nodes with
  | some id => .error (.duplicateNode id)
  | none =>
    match checkStart nodes start with
    | .error e => .error e
    | .ok () =>
      match addConnections nodes {} connections with
      | .error e => .error e
      | .ok index =>
        match dataCycle? nodes index, reentered? nodes index with
        | some id, _ => .error (.dataCycle id)
        | none, some id => .error (.loopReentry id)
        | none, none => .ok ⟨serial, nodes, connections, start, index⟩

def withStart (d : Document) (start : String) : Except DocumentError Document :=
  match checkStart d.nodes start with
  | .error e => .error e
  | .ok () => .ok { d with start }

def isCopyOf (d e : Document) : Bool := d.serial == e.serial

def node? (d : Document) (id : String) : Option Node := nodeIn? d.nodes id

def nextExec (d : Document) (id pin : String) : Option String :=
  d.index.exec.lookup (id, pin)

def dataSource (d : Document) (id pin : String) : Option (String × String) :=
  d.index.data.lookup (id, pin)

def dataOnlyCount (d : Document) : Nat :=
  (d.nodes.filter fun n => n.kind.isDataOnly).length

theorem withStart_start {d e : Document} {start : String} (h : d.withStart start = .ok e) :
    e.start = start ∧ e.isCopyOf d = true := by
  unfold withStart at h
  split at h
  · simp at h
  · simp only [Except.ok.injEq] at h
    subst h
    simp [isCopyOf]

end Document
end MacroGraph
