import MacroGraph.Number.Text
import MacroGraph.Text.Letter

namespace MacroGraph

inductive Value where
  | number (x : Binary64)
  | text (s : String)
  | bool (b : Bool)
  | null
  deriving DecidableEq, Repr, Inhabited

inductive ValueKind where
  | number
  | text
  | bool
  deriving DecidableEq, Repr

namespace Value

def truthy : List String := ["true", "1", "t", "y", "yes"]

/-- Below this bound, `2 ^ 63`, whole numbers are written with all their digits. -/
def wholeBound : Nat := 1 <<< 63

def ofInt (k : Int) : Value := .number (.ofInt k)

/-- Whole numbers below `wholeBound` are written as integers, zero without a sign; all
others with the fewest digits that read back. -/
def numberText (x : Binary64) : String :=
  if x.isWhole && decide (x.wholeMagnitude < wholeBound) then
    let digits := digitsOf x.wholeMagnitude
    String.ofList (if x.isNegative && x.wholeMagnitude != 0 then '-' :: digits else digits)
  else x.positional

def display : Value → String
  | .number x => numberText x
  | .text s => s
  | .bool true => "true"
  | .bool false => "false"
  | .null => "null"

def finiteOrZero (x : Binary64) : Binary64 := if x.isFinite then x else .zero

/-- The number a text spells between blanks, else zero. -/
def numberOfText (s : String) : Binary64 :=
  finiteOrZero ((Binary64.read? (trim s)).getD .zero)

def toNumber : Value → Binary64
  | .number x => finiteOrZero x
  | .text s => numberOfText s
  | .bool true => .one
  | .bool false => .zero
  | .null => .zero

def toText : Value → String
  | .null => ""
  | v => v.display

def toBool : Value → Bool
  | .bool b => b
  | .number x => !x.isZero
  | .text s => truthy.contains (lowerCase (trim s))
  | .null => false

def coerce (v : Value) : ValueKind → Value
  | .number => .number v.toNumber
  | .text => .text v.toText
  | .bool => .bool v.toBool

def orElse (v fallback : Value) : Value :=
  match v with
  | .null => fallback
  | v => v

def kind? : Value → Option ValueKind
  | .number _ => some .number
  | .text _ => some .text
  | .bool _ => some .bool
  | .null => none

theorem isFinite_finiteOrZero (x : Binary64) : (finiteOrZero x).isFinite = true := by
  unfold finiteOrZero
  split
  · assumption
  · rfl

theorem isFinite_toNumber (v : Value) : v.toNumber.isFinite = true := by
  cases v with
  | number x => exact isFinite_finiteOrZero x
  | text s => exact isFinite_finiteOrZero _
  | bool b => cases b <;> rfl
  | null => rfl

end Value
end MacroGraph
