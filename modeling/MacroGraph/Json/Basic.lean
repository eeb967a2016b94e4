import MacroGraph.Json.Number

namespace MacroGraph

/-- A JSON value. The names of an object are distinct. -/
inductive Json where
  | null
  | bool (b : Bool)
  | number (n : Json.Number)
  | text (s : String)
  | array (items : List Json)
  | object (fields : List (String × Json))
  deriving Repr, Inhabited

namespace Json

def escapedChar (c : Char) : List Char :=
  if c = '"' then ['\\', '"']
  else if c = '\\' then ['\\', '\\']
  else if c = Char.ofNat 8 then ['\\', 'b']
  else if c = Char.ofNat 12 then ['\\', 'f']
  else if c = '\n' then ['\\', 'n']
  else if c = '\r' then ['\\', 'r']
  else if c = '\t' then ['\\', 't']
  else if c.toNat < 32 then
    ['\\', 'u', '0', '0'] ++ (if c.toNat < 16 then ['0'] else []) ++ Nat.toDigits 16 c.toNat
  else [c]

def escaped (s : String) : String :=
  String.ofList ('"' :: s.toList.flatMap escapedChar ++ ['"'])

def render : Json → String
  | null => "null"
  | bool true => "true"
  | bool false => "false"
  | number n => n.text
  | text s => escaped s
  | array items => "[" ++ String.intercalate "," (renderItems items) ++ "]"
  | object fields => "\x7b" ++ String.intercalate "," (renderFields fields) ++ "\x7d"
where
  renderItems : List Json → List String
    | [] => []
    | j :: rest => j.render :: renderItems rest
  renderFields : List (String × Json) → List String
    | [] => []
    | (name, j) :: rest => (escaped name ++ ":" ++ j.render) :: renderFields rest

def ofNat (n : Nat) : Json := .number (.natural n)

def ofInt (k : Int) : Json :=
  if 0 ≤ k then .number (.natural k.toNat) else .number (.negative k)

def field? (name : String) : Json → Option Json
  | object fields => fields.lookup name
  | _ => none

end Json
end MacroGraph
