import MacroGraph.Document
import MacroGraph.Log

/-!
Evaluation of data. The value of an output follows data connections to their sources, with
fallbacks wherever none is produced; values that loops publish come before all others.
-/
namespace MacroGraph

/-- Published values by node and pin. -/
abbrev Outputs := List (String × List (String × Value))

namespace Outputs

def value? (o : Outputs) (id pin : String) : Option Value :=
  (o.lookup id).bind fun pins => pins.lookup pin

def withdraw (o : Outputs) (id : String) : Outputs := o.filter fun e => e.1 != id

def publish (o : Outputs) (id pin : String) (v : Value) : Outputs :=
  (id, [(pin, v)]) :: o.withdraw id

theorem lookup_withdraw (o : Outputs) (id other : String) :
    (o.withdraw id).lookup other = if other = id then none else o.lookup other := by
  induction o with
  | nil => simp [withdraw]
  | cons e rest ih =>
    obtain ⟨n, pins⟩ := e
    simp only [withdraw] at ih ⊢
    by_cases hn : n = id
    · subst hn
      by_cases h : other = n
      · subst h
        simpa using ih
      · have no : (other == n) = false := by simpa using h
        simp [List.lookup_cons, ih, h, no]
    · by_cases h : other = n
      · subst h
        simp [hn]
      · have no : (other == n) = false := by simpa using h
        simp [List.lookup_cons, ih, hn, no]

theorem value?_withdraw (o : Outputs) (id other pin : String) :
    (o.withdraw id).value? other pin = if other = id then none else o.value? other pin := by
  unfold value?
  rw [lookup_withdraw]
  split <;> rfl

theorem value?_publish (o : Outputs) (id pin : String) (v : Value) (other otherPin : String) :
    (o.publish id pin v).value? other otherPin =
      if other = id then (if otherPin = pin then some v else none)
      else o.value? other otherPin := by
  by_cases h : other = id
  · subst h
    by_cases hp : otherPin = pin
    · simp [publish, value?, hp]
    · have no : (otherPin == pin) = false := by simpa using hp
      simp [publish, value?, hp, no, List.lookup_cons]
  · have no : (other == id) = false := by simpa using h
    simp only [publish, value?, List.lookup_cons, no, lookup_withdraw, h, if_false]

end Outputs

namespace Evaluation

/-- Results that are not finite, division by zero and unknown operators give zero. -/
def calculate (operator : String) (a b : Binary64) : Binary64 :=
  Value.finiteOrZero <|
    if ["add", "+"].contains operator then a.add b
    else if ["subtract", "-"].contains operator then a.sub b
    else if ["multiply", "*"].contains operator then a.mul b
    else if ["divide", "/"].contains operator then
      (if b.isZero then Binary64.zero else a.div b)
    else Binary64.zero

def compareNumbers (operator : String) (a b : Binary64) : Bool :=
  if operator = "==" then a.eq b
  else if operator = "!=" then !a.eq b
  else if operator = ">" then b.lt a
  else if operator = "<" then a.lt b
  else if operator = ">=" then b.le a
  else if operator = "<=" then a.le b
  else false

def occursIn (needle : List Char) : List Char → Bool
  | [] => needle.isEmpty
  | c :: rest => needle.isPrefixOf (c :: rest) || occursIn needle rest

def compareTexts (operator : String) (a b : String) : Bool :=
  if operator = "==" then a == b
  else if operator = "!=" then a != b
  else if operator = "contains" then occursIn b.toList a.toList
  else if operator = "starts_with" then b.toList.isPrefixOf a.toList
  else if operator = "ends_with" then b.toList.isSuffixOf a.toList
  else false

/-- Values of different kinds compare as false, like unknown operators. -/
def compareValues (operator : String) : Value → Value → Bool
  | .number a, .number b => compareNumbers operator a b
  | .text a, .text b => compareTexts operator a b
  | _, _ => false

def comparedKind (n : Node) : ValueKind :=
  if ["string", "text"].contains (n.option "Type" "number") then .text else .number

def zeroOf : ValueKind → Value
  | .number => .number .zero
  | .text => .text ""
  | .bool => .bool false

/-- The value that arrives at an input, or the fallback in the place of null, in the kind
that is asked for. -/
def received (kind : ValueKind) (fallback : Value) (arriving : Value) : Value :=
  (arriving.orElse fallback).coerce kind

/-- An input of a node, given how outputs are evaluated. -/
def inputWith (d : Document) (output : String → String → Option Value) (id pin : String)
    (kind : ValueKind) (fallback : Value) : Option Value :=
  match d.dataSource id pin with
  | none => some (received kind fallback .null)
  | some (source, sourcePin) => (output source sourcePin).map (received kind fallback)

/-- What a node computes from its inputs, given how outputs are evaluated. Kinds that run
produce no data. -/
def produce (d : Document) (output : String → String → Option Value) (n : Node) :
    Option Value :=
  match n.kind with
  | .numberLiteral => some ((n.valueOr "value" .null).coerce .number)
  | .stringLiteral => some ((n.valueOr "value" .null).coerce .text)
  | .math => do
    let a ← inputWith d output n.id "A" .number (n.valueOr "A" (.number .zero))
    let b ← inputWith d output n.id "B" .number (n.valueOr "B" (.number .zero))
    return .number (calculate (n.option "Operator" "add") a.toNumber b.toNumber)
  | .compare => do
    let kind := comparedKind n
    let a ← inputWith d output n.id "A" kind (n.valueOr "A" (zeroOf kind))
    let b ← inputWith d output n.id "B" kind (n.valueOr "B" (zeroOf kind))
    return .bool (compareValues (n.option "Operator" "==") a b)
  | _ => some .null

/-- The value of an output, evaluating at most `depth` outputs that feed each other. -/
def outputAt (d : Document) (o : Outputs) : Nat → String → String → Option Value
  | 0, _, _ => none
  | depth + 1, id, pin =>
    match o.value? id pin with
    | some v => some v
    | none =>
      match d.node? id with
      | none => some .null
      | some n => produce d (outputAt d o depth) n

/-- The depth that no evaluation in a document exceeds: no data-only node feeds itself. -/
def depthOf (d : Document) : Nat := d.dataOnlyCount + 1

def output (d : Document) (o : Outputs) (id pin : String) : Value :=
  (outputAt d o (depthOf d) id pin).getD .null

def resolve (d : Document) (o : Outputs) (id pin : String) (kind : ValueKind)
    (fallback : Value) : Value :=
  (inputWith d (fun i p => some (output d o i p)) id pin kind fallback).getD .null

/-- An input of a node, which falls back to the stored value of its field first. -/
def input (d : Document) (o : Outputs) (n : Node) (pin : String) (kind : ValueKind)
    (fallback : Value) : Value :=
  resolve d o n.id pin kind (n.valueOr pin fallback)

def number (d : Document) (o : Outputs) (n : Node) (pin : String) (fallback : Binary64) :
    Binary64 :=
  (input d o n pin .number (.number fallback)).toNumber

def text (d : Document) (o : Outputs) (n : Node) (pin fallback : String) : String :=
  (input d o n pin .text (.text fallback)).toText

def boolean (d : Document) (o : Outputs) (n : Node) (pin : String) (fallback : Bool) : Bool :=
  (input d o n pin .bool (.bool fallback)).toBool

structure Visit where
  id : String
  pin : String
  value : Value
  deriving DecidableEq, Repr

def dataInputs (n : Node) : List String :=
  match n.kind with
  | .math | .compare => ["A", "B"]
  | _ => []

/-- The evaluations that one evaluation makes, each when it is done. Published values and
ids without a node take none. -/
def visitsAt (d : Document) (o : Outputs) : Nat → String → String → List Visit
  | 0, _, _ => []
  | depth + 1, id, pin =>
    match o.value? id pin, d.node? id with
    | none, some n =>
      let earlier := (dataInputs n).flatMap fun p =>
        match d.dataSource n.id p with
        | some (source, sourcePin) => visitsAt d o depth source sourcePin
        | none => []
      earlier ++ [⟨id, pin, output d o id pin⟩]
    | _, _ => []

def visits (d : Document) (o : Outputs) (id pin : String) : List Visit :=
  visitsAt d o (depthOf d) id pin

def inputVisits (d : Document) (o : Outputs) (id pin : String) : List Visit :=
  match d.dataSource id pin with
  | some (source, sourcePin) => visits d o source sourcePin
  | none => []

def Visit.entry (v : Visit) : Log.Entry where
  level := .trace
  message := "evaluated data output"
  fields := [("node_id", v.id), ("pin", v.pin), ("value", v.value.display)]

end Evaluation
end MacroGraph
