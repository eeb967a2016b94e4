import MacroGraph.Text.Blank

namespace MacroGraph.KeyDescriptor

/-- A scan in progress: the keys so far and the name being read, both last first, and
whether a plus sign would be a key. -/
structure Scan where
  keys : List (List Char) := []
  current : List Char := []
  expectsKey : Bool := true
  deriving DecidableEq, Repr

def Scan.pending (s : Scan) : List Char := trimChars s.current.reverse

def Scan.next (s : Scan) (c : Char) : Scan :=
  if c ≠ '+' then { s with current := c :: s.current }
  else if s.pending ≠ [] then ⟨s.pending :: s.keys, [], true⟩
  else if s.expectsKey then ⟨['+'] :: s.keys, [], false⟩
  else { s with expectsKey := true }

def Scan.finish (s : Scan) : List (List Char) :=
  if s.pending ≠ [] then (s.pending :: s.keys).reverse else s.keys.reverse

/-- Angle brackets only mark names and are no part of them. -/
def withoutBrackets (cs : List Char) : List Char := cs.filter fun c => c != '<' && c != '>'

def parseChars (cs : List Char) : List (List Char) :=
  ((withoutBrackets cs).foldl Scan.next {}).finish

def parse (s : String) : List String := (parseChars s.toList).map String.ofList

end MacroGraph.KeyDescriptor
