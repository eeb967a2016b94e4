import MacroGraph.Json.Basic
import MacroGraph.Json.Tree
import MacroGraph.Text.Quoted
import MacroGraph.Table

namespace MacroGraph.Json

/-- What stands where something else was expected. -/
inductive Found where
  | integer (k : Int)
  | real (x : Binary64)
  | bool (b : Bool)
  | null
  | text (s : String)
  | array
  | object
  deriving DecidableEq, Repr

/-- Why a text cannot be read. Only problems of shape have a message. -/
inductive Problem where
  | malformed
  | wrongType (found : Found) (expected : String)
  | wrongValue (found : Found) (expected : String)
  | missingField (name : String)
  | duplicateField (name : String)
  | wrongLength (count : Nat) (expected : String)
  deriving DecidableEq, Repr

def Found.describe : Found → String
  | integer k => "integer `" ++ String.ofList (if k < 0 then '-' :: digitsOf k.natAbs
      else digitsOf k.natAbs) ++ "`"
  | real x => "floating point `" ++ x.compact ++ "`"
  | bool b => "boolean `" ++ (if b then "true" else "false") ++ "`"
  | null => "null"
  | text s => "string " ++ quoted s
  | array => "sequence"
  | object => "map"

def Problem.message? : Problem → Option String
  | malformed => none
  | wrongType found expected =>
    some ("invalid type: " ++ found.describe ++ ", expected " ++ expected)
  | wrongValue found expected =>
    some ("invalid value: " ++ found.describe ++ ", expected " ++ expected)
  | missingField name => some ("missing field `" ++ name ++ "`")
  | duplicateField name => some ("duplicate field `" ++ name ++ "`")
  | wrongLength count expected =>
    some ("invalid length " ++ String.ofList (digitsOf count) ++ ", expected " ++ expected)

def Number.found : Number → Found
  | natural n => .integer n
  | negative k => .integer k
  | real x => .real x

namespace Tree

/-- Containers that may stand in one another, counted from the outermost. -/
def depthLimit : Nat := 127

/-- The problem with a tree that is none of what was expected. A scalar is read to its end
first. -/
def mismatch (expected : String) : Tree → Problem
  | null => .wrongType .null expected
  | bool b => .wrongType (.bool b) expected
  | number n =>
    match n.read? with
    | some k => .wrongType k.found expected
    | none => .malformed
  | text (some s) => .wrongType (.text s) expected
  | text none => .malformed
  | array .. => .wrongType .array expected
  | object .. => .wrongType .object expected
  | broken => .malformed

def toText : Tree → Except Problem String
  | text (some s) => .ok s
  | t => .error (t.mismatch "a string")

def toText? : Tree → Except Problem (Option String)
  | null => .ok none
  | t => t.toText.map some

def toNatural : Tree → Except Problem Nat
  | number n =>
    match n.read? with
    | some (.natural k) => .ok k
    | some (.negative k) => .error (.wrongValue (.integer k) "u64")
    | some (.real x) => .error (.wrongType (.real x) "u64")
    | none => .error .malformed
  | t => .error (t.mismatch "u64")

def mapItems (item : Tree → Except Problem α) : List Tree → Except Problem (List α)
  | [] => .ok []
  | t :: rest =>
    match item t with
    | .error p => .error p
    | .ok x => (mapItems item rest).map (x :: ·)

def toList (item : Nat → Tree → Except Problem α) : Nat → Tree → Except Problem (List α)
  | 0, array .. => .error .malformed
  | depth + 1, array items closed =>
    match mapItems (item depth) items with
    | .error p => .error p
    | .ok xs => if closed then .ok xs else .error .malformed
  | _, t => .error (t.mismatch "a sequence")

mutual

/-- Any value. The last member of a name counts. -/
def toJson : Nat → Tree → Except Problem Json
  | _, null => .ok .null
  | _, bool b => .ok (.bool b)
  | _, number n =>
    match n.read? with
    | some k => .ok (.number k)
    | none => .error .malformed
  | _, text (some s) => .ok (.text s)
  | _, text none => .error .malformed
  | 0, _ => .error .malformed
  | depth + 1, array items closed =>
    match toJsonItems depth items with
    | .error p => .error p
    | .ok js => if closed then .ok (.array js) else .error .malformed
  | depth + 1, object members closed =>
    match toJsonFields depth [] members with
    | .error p => .error p
    | .ok fields => if closed then .ok (.object fields) else .error .malformed
  | _, broken => .error .malformed

def toJsonItems : Nat → List Tree → Except Problem (List Json)
  | _, [] => .ok []
  | depth, t :: rest =>
    match toJson depth t with
    | .error p => .error p
    | .ok j => (toJsonItems depth rest).map (j :: ·)

def toJsonFields : Nat → List (String × Json) → List (Option String × Tree) →
    Except Problem (List (String × Json))
  | _, fields, [] => .ok fields
  | _, _, (none, _) :: _ => .error .malformed
  | depth, fields, (some name, t) :: rest =>
    match toJson depth t with
    | .error p => .error p
    | .ok j => toJsonFields depth (Table.put fields name j) rest

end

def toFields : Nat → Tree → Except Problem (List (String × Json))
  | 0, object .. => .error .malformed
  | depth + 1, object members closed =>
    match toJsonFields depth [] members with
    | .error p => .error p
    | .ok fields => if closed then .ok fields else .error .malformed
  | _, t => .error (t.mismatch "a map")

end Tree

/-- A field of a record that is read step by step: its names, whether it was read, and how
its value is taken in. -/
structure FieldRule (σ : Type) where
  name : String
  aliases : List String
  optional : Bool
  isSet : σ → Bool
  read : Nat → Tree → σ → Except Problem σ

/-- A kind of record: its name in messages and its fields in order. -/
structure Record (σ : Type) where
  name : String
  fields : List (FieldRule σ)
  start : σ

namespace Record

def expected (r : Record σ) : String := "struct " ++ r.name

def expectedItems (r : Record σ) : String :=
  r.expected ++ " with " ++ String.ofList (digitsOf r.fields.length) ++
    (if r.fields.length = 1 then " element" else " elements")

def field? (r : Record σ) (name : String) : Option (FieldRule σ) :=
  r.fields.find? fun f => f.name == name || f.aliases.contains name

/-- Takes in members in their order. A second value for a field is a problem before it is
looked at. -/
def takeMembers (r : Record σ) (depth : Nat) : σ → List (Option String × Tree) →
    Except Problem σ
  | record, [] => .ok record
  | _, (none, _) :: _ => .error .malformed
  | record, (some name, t) :: rest =>
    match r.field? name with
    | none => if t.intact then takeMembers r depth record rest else .error .malformed
    | some f =>
      if f.isSet record then .error (.duplicateField f.name)
      else match f.read depth t record with
        | .error p => .error p
        | .ok record => takeMembers r depth record rest

def missing? (record : σ) : List (FieldRule σ) → Option String
  | [] => none
  | f :: rest => if f.optional || f.isSet record then missing? record rest else some f.name

/-- Takes in the items of an array, one for each field. Items may be left out at the end
for optional fields; `position` counts the fields before. -/
def takeItems (r : Record σ) (depth : Nat) (closed : Bool) : Nat → σ → List (FieldRule σ) →
    List Tree → Except Problem σ
  | _, record, [], [] => if closed then .ok record else .error .malformed
  | _, _, [], _ :: _ => .error .malformed
  | position, record, f :: fields, [] =>
    if !closed then .error .malformed
    else if f.optional then takeItems r depth closed (position + 1) record fields []
    else .error (.wrongLength position r.expectedItems)
  | position, record, f :: fields, t :: items =>
    match f.read depth t record with
    | .error p => .error p
    | .ok record => takeItems r depth closed (position + 1) record fields items

def read (r : Record σ) : Nat → Tree → Except Problem σ
  | 0, .array .. => .error .malformed
  | 0, .object .. => .error .malformed
  | depth + 1, .object members closed =>
    match r.takeMembers depth r.start members with
    | .error p => .error p
    | .ok record =>
      if !closed then .error .malformed
      else match missing? record r.fields with
        | some name => .error (.missingField name)
        | none => .ok record
  | depth + 1, .array items closed => r.takeItems depth closed 0 r.start r.fields items
  | _, t => .error (t.mismatch r.expected)

end Record

/-- Reads a whole text. What follows the value is looked at last. -/
def readText (reader : Nat → Tree → Except Problem α) (s : String) : Except Problem α :=
  let (t, clean) := Tree.ofText s
  match reader Tree.depthLimit t with
  | .error p => .error p
  | .ok x => if clean then .ok x else .error .malformed

def ofText (s : String) : Except Problem Json := readText Tree.toJson s

end MacroGraph.Json
