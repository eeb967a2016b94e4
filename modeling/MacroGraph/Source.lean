import MacroGraph.Compile

/-!
Sources of documents: a graph given as nodes and connections, or the text of a stored
macro, to be compiled from its own start or another and with names of one's own for kinds.
-/
namespace MacroGraph

inductive Source where
  | graph (nodes : List Node) (connections : List Connection) (start : String)
  | text (json : String) (start : Option String) (mappings : List (String × String))
  deriving Repr

inductive SourceError where
  | unreadable (problem : Json.Problem)
  | invalid (error : DocumentError)
  deriving Repr

def SourceError.message? : SourceError → Option String
  | unreadable p => Definition.problemText? p
  | invalid e => some e.message

namespace Source

def readDefinition (json : String) (start : Option String) :
    Except Json.Problem Definition :=
  (Definition.ofText json).map fun d => { d with start := start.getD d.start }

def build (serial : Nat) : Source → Except SourceError Document
  | graph nodes connections start =>
    (Document.build serial nodes connections start).mapError .invalid
  | text json start mappings =>
    match readDefinition json start with
    | .error p => .error (.unreadable p)
    | .ok d => (Compile.document (Registry.ofMappings mappings) serial d).mapError .invalid

def log : Source → List Log.Entry
  | graph .. => []
  | text json start mappings =>
    match readDefinition json start with
    | .error _ => []
    | .ok d => Compile.log (Registry.ofMappings mappings) d

end Source
end MacroGraph
