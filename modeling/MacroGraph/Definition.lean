import MacroGraph.Json.Shape
import MacroGraph.Value

/-!
Definitions: macros as an editor stores them, with types and values not yet checked. The
reader leaves out what only the editor needs, and accepts each field under the name it is
written with and under its other spelling.
-/
namespace MacroGraph

structure NodeEntry where
  id : String
  typeName : String
  values : List (String × Json) := []
  deriving Repr

structure ConnectionEntry where
  source : String
  sourcePin : String
  target : String
  targetPin : String
  flow : String
  deriving DecidableEq, Repr

structure Definition where
  start : String := ""
  nodes : List NodeEntry
  connections : List ConnectionEntry := []
  deriving Repr

/-- The value that a stored JSON value means. Recorded keys are objects whose descriptor
alone matters; other composite values mean nothing. -/
def Value.ofJson : Json → Value
  | .null => .null
  | .bool b => .bool b
  | .number n => .number n.toBinary64
  | .text s => .text s
  | .array _ => .null
  | .object fields =>
    match fields.lookup "pynput" with
    | some (.text descriptor) => .text descriptor
    | _ => .null

namespace NodeEntry
open Json

structure Draft where
  id : Option String := none
  typeName : Option String := none
  values : Option (List (String × Json)) := none

def record : Record Draft where
  name := "NodeDefinition"
  start := {}
  fields := [
    { name := "id", aliases := [], optional := false, isSet := fun d => d.id.isSome
      read := fun _ t d => t.toText.map fun s => { d with id := some s } },
    { name := "type", aliases := [], optional := false, isSet := fun d => d.typeName.isSome
      read := fun _ t d => t.toText.map fun s => { d with typeName := some s } },
    { name := "values", aliases := [], optional := true, isSet := fun d => d.values.isSome
      read := fun depth t d => (t.toFields depth).map fun v => { d with values := some v } }]

def Draft.entry (d : Draft) : NodeEntry where
  id := d.id.getD ""
  typeName := d.typeName.getD ""
  values := d.values.getD []

def read (depth : Nat) (t : Tree) : Except Problem NodeEntry :=
  (record.read depth t).map Draft.entry

def toJson (n : NodeEntry) : Json :=
  .object [("id", .text n.id), ("type", .text n.typeName), ("values", .object n.values)]

end NodeEntry

namespace ConnectionEntry
open Json

structure Draft where
  source : Option String := none
  sourcePin : Option String := none
  target : Option String := none
  targetPin : Option String := none
  flow : Option String := none

def textField (name : String) (aliases : List String) (get : Draft → Option String)
    (set : Draft → String → Draft) : FieldRule Draft where
  name := name
  aliases := aliases
  optional := false
  isSet := fun d => (get d).isSome
  read := fun _ t d => t.toText.map (set d)

def record : Record Draft where
  name := "ConnectionDefinition"
  start := {}
  fields := [
    textField "startNodeId" ["start_node_id"] Draft.source
      fun d s => { d with source := some s },
    textField "startPinName" ["start_pin_name"] Draft.sourcePin
      fun d s => { d with sourcePin := some s },
    textField "endNodeId" ["end_node_id"] Draft.target
      fun d s => { d with target := some s },
    textField "endPinName" ["end_pin_name"] Draft.targetPin
      fun d s => { d with targetPin := some s },
    textField "flow" [] Draft.flow fun d s => { d with flow := some s }]

def Draft.entry (d : Draft) : ConnectionEntry where
  source := d.source.getD ""
  sourcePin := d.sourcePin.getD ""
  target := d.target.getD ""
  targetPin := d.targetPin.getD ""
  flow := d.flow.getD ""

def read (depth : Nat) (t : Tree) : Except Problem ConnectionEntry :=
  (record.read depth t).map Draft.entry

def toJson (c : ConnectionEntry) : Json :=
  .object [("startNodeId", .text c.source), ("startPinName", .text c.sourcePin),
    ("endNodeId", .text c.target), ("endPinName", .text c.targetPin), ("flow", .text c.flow)]

end ConnectionEntry

namespace Definition
open Json

structure Draft where
  start : Option String := none
  nodes : Option (List NodeEntry) := none
  connections : Option (List ConnectionEntry) := none

def record : Record Draft where
  name := "MacroDefinition"
  start := {}
  fields := [
    { name := "start_node_id", aliases := ["startNodeId"], optional := true
      isSet := fun d => d.start.isSome
      read := fun _ t d => t.toText.map fun s => { d with start := some s } },
    { name := "nodes", aliases := [], optional := false, isSet := fun d => d.nodes.isSome
      read := fun depth t d =>
        (t.toList NodeEntry.read depth).map fun ns => { d with nodes := some ns } },
    { name := "connections", aliases := [], optional := true
      isSet := fun d => d.connections.isSome
      read := fun depth t d =>
        (t.toList ConnectionEntry.read depth).map fun cs => { d with connections := some cs } }]

def Draft.definition (d : Draft) : Definition where
  start := d.start.getD ""
  nodes := d.nodes.getD []
  connections := d.connections.getD []

def read (depth : Nat) (t : Tree) : Except Problem Definition :=
  (record.read depth t).map Draft.definition

def ofText (s : String) : Except Problem Definition := readText read s

def toJson (d : Definition) : Json :=
  .object [("start_node_id", .text d.start), ("nodes", .array (d.nodes.map NodeEntry.toJson)),
    ("connections", .array (d.connections.map ConnectionEntry.toJson))]

def problemText? (p : Problem) : Option String :=
  p.message?.map ("Failed to parse macro JSON: " ++ ·)

end Definition
end MacroGraph
