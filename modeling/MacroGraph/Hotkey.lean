import MacroGraph.Compile
import MacroGraph.Settings
import MacroGraph.Table

namespace MacroGraph

inductive HotkeyAction where
  /-- Starts the document, or stops it when it is the active run. -/
  | toggle (document : Document)
  | emergencyStop
  deriving Repr

structure Bindings where
  actions : List (String × HotkeyAction) := []
  deriving Repr

namespace Bindings

/-- Binds a hotkey in the place of what it did before. -/
def bind (b : Bindings) (hotkey : String) (action : HotkeyAction) : Bindings :=
  ⟨Table.put b.actions (trim hotkey) action⟩

def get? (b : Bindings) (hotkey : String) : Option HotkeyAction :=
  b.actions.lookup (trim hotkey)

def size (b : Bindings) : Nat := b.actions.length

def bindEmergencyStop (b : Bindings) (h : HotkeySettings) : Bindings :=
  match h.emergencyStop? with
  | some hotkey => b.bind hotkey .emergencyStop
  | none => b

def hotkeyField : String := "Hotkey"

def hotkeyOf? (v : Option Value) : Option String :=
  assignedHotkey? (v.getD .null).toText

def bindStarts (d : Document) : Bindings → List Node → Except DocumentError Bindings
  | b, [] => .ok b
  | b, n :: rest =>
    match n.kind == .start, hotkeyOf? (n.value? hotkeyField) with
    | true, some hotkey =>
      match d.withStart n.id with
      | .error e => .error e
      | .ok rooted => bindStarts d (b.bind hotkey (.toggle rooted)) rest
    | _, _ => bindStarts d b rest

/-- The bindings of a document and of the settings, which come last. -/
def ofDocument (d : Document) (h : HotkeySettings) : Except DocumentError Bindings :=
  (bindStarts d {} d.nodes).map fun b => b.bindEmergencyStop h

/-- The start nodes of a definition that have a hotkey, with it. -/
def hotkeyStarts (d : Definition) : List (NodeEntry × String) :=
  d.nodes.filterMap fun n =>
    if NodeKind.ofTypeName? n.typeName = some .start then
      (hotkeyOf? ((n.values.lookup hotkeyField).map Value.ofJson)).map fun h => (n, h)
    else none

/-- The macro of one start node on the canvas of a definition. -/
def rootedAt (d : Definition) (n : NodeEntry) : Definition := { d with start := n.id }

/-- Binds start nodes whose own macros compile, numbering the documents from `serial` on.
One that does not compile is left out. -/
def bindEntries (d : Definition) : Nat → Bindings → List (NodeEntry × String) → Bindings
  | _, b, [] => b
  | serial, b, (n, hotkey) :: rest =>
    match Compile.document .standard serial (rootedAt d n) with
    | .ok rooted => bindEntries d (serial + 1) (b.bind hotkey (.toggle rooted)) rest
    | .error _ => bindEntries d (serial + 1) b rest

/-- The bindings of a definition, compiled once for each start node with a hotkey, and of
the settings, which come last. -/
def ofDefinition (serial : Nat) (d : Definition) (h : HotkeySettings) : Bindings :=
  (bindEntries d serial {} (hotkeyStarts d)).bindEmergencyStop h

def unboundEntry (n : NodeEntry) (e : DocumentError) : Log.Entry where
  level := .warn
  message := "hotkey left unbound"
  fields := [("start_node", n.id), ("error", e.message)]

def definitionLog (d : Definition) : List Log.Entry :=
  (hotkeyStarts d).flatMap fun (n, _) =>
    Compile.log .standard (rootedAt d n) ++
      match Compile.document .standard 0 (rootedAt d n) with
      | .ok _ => []
      | .error e => [unboundEntry n e]

theorem get?_bind (b : Bindings) (hotkey : String) (action : HotkeyAction) (other : String) :
    (b.bind hotkey action).get? other =
      if trim other = trim hotkey then some action else b.get? other := by
  simp only [bind, get?, Table.lookup_put]

end Bindings
end MacroGraph
