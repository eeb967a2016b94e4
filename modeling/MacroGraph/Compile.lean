import MacroGraph.Definition
import MacroGraph.Document
import MacroGraph.Log

/-!
Compiling a definition into a document. An editor saves its whole canvas, so a node of
unknown type is an error only when the start can reach it; otherwise it is dropped together
with its connections.
-/
namespace MacroGraph

/-- Node kinds by type name. The first entry of a name counts. -/
abbrev Registry := List (String × NodeKind)

namespace Registry

def standard : Registry := NodeKind.all.map fun k => (k.typeName, k)

/-- Makes a name mean what the name of a kind means. Other names change nothing. -/
def withMapping (r : Registry) (userName kindName : String) : Registry :=
  match NodeKind.ofTypeName? kindName with
  | some k => (userName, k) :: r
  | none => r

def ofMappings (mappings : List (String × String)) : Registry :=
  mappings.foldl (fun r m => r.withMapping m.1 m.2) standard

end Registry

namespace Compile

def connection (c : ConnectionEntry) : Except DocumentError Connection :=
  match Flow.ofName? c.flow with
  | some flow => .ok ⟨c.source, c.sourcePin, c.target, c.targetPin, flow⟩
  | none => .error (.badConnection c.source c.sourcePin
      ("unknown flow kind '" ++ c.flow ++ "'"))

def connections : List ConnectionEntry → Except DocumentError (List Connection)
  | [] => .ok []
  | c :: rest =>
    match connection c with
    | .error e => .error e
    | .ok c => (connections rest).map (c :: ·)

/-- Exec connections forwards and data connections backwards. -/
def touchEdges (cs : List Connection) : Edges :=
  cs.map fun c =>
    match c.flow with
    | .exec => (c.source, c.target)
    | .data => (c.target, c.source)

/-- The ids that a run from a start can touch. -/
def touched (start : String) (cs : List Connection) : List String :=
  reachable (touchEdges cs) start

def node (n : NodeEntry) (kind : NodeKind) : Node where
  id := n.id
  kind := kind
  values := n.values.map fun v => (v.1, Value.ofJson v.2)

/-- The nodes of known type, and the entries of unknown type that cannot be reached. -/
def sortNodes (registry : Registry) (reached : List String) : List NodeEntry →
    Except DocumentError (List Node × List NodeEntry)
  | [] => .ok ([], [])
  | n :: rest =>
    match registry.lookup n.typeName with
    | some kind => (sortNodes registry reached rest).map fun (ns, skipped) =>
        (node n kind :: ns, skipped)
    | none =>
      if reached.contains n.id then .error (.unknownType n.id n.typeName)
      else (sortNodes registry reached rest).map fun (ns, skipped) => (ns, n :: skipped)

/-- The connections that touch none of the skipped ids. -/
def kept (skipped : List NodeEntry) (cs : List Connection) : List Connection :=
  let ids := skipped.map NodeEntry.id
  cs.filter fun c => !ids.contains c.source && !ids.contains c.target

def document (registry : Registry) (serial : Nat) (d : Definition) :
    Except DocumentError Document :=
  match connections d.connections with
  | .error e => .error e
  | .ok cs =>
    match sortNodes registry (touched d.start cs) d.nodes with
    | .error e => .error e
    | .ok (nodes, skipped) => Document.build serial nodes (kept skipped cs) d.start

/-- The entries of unknown type before the first that can be reached. -/
def skippedFirst (registry : Registry) (reached : List String) (nodes : List NodeEntry) :
    List NodeEntry :=
  let unknown := nodes.filter fun n => (registry.lookup n.typeName).isNone
  unknown.takeWhile fun n => !reached.contains n.id

def skippedEntry (n : NodeEntry) : Log.Entry where
  level := .warn
  message := "skipping unreachable node of unknown type"
  fields := [("node_id", n.id), ("node_type", n.typeName)]

def compiledEntry (d : Document) : Log.Entry where
  level := .debug
  message := "compiled macro document"
  fields := [("start_node", d.start), ("nodes", toString d.nodes.length),
    ("connections", toString d.connections.length)]

/-- What compiling logs: each entry it skips, then the document. -/
def log (registry : Registry) (d : Definition) : List Log.Entry :=
  match connections d.connections with
  | .error _ => []
  | .ok cs =>
    (skippedFirst registry (touched d.start cs) d.nodes).map skippedEntry ++
      match document registry 0 d with
      | .ok compiled => [compiledEntry compiled]
      | .error _ => []

end Compile
end MacroGraph
