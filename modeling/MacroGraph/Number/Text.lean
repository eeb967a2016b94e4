import MacroGraph.Number.Shortest

namespace MacroGraph

def digitsOf (n : Nat) : List Char := Nat.toDigits 10 n

theorem digitsOf_ne_nil (n : Nat) : digitsOf n ≠ [] := Nat.toDigits_ne_nil

theorem isDigit_of_mem_digitsOf {n : Nat} {c : Char} (mem : c ∈ digitsOf n) : c.isDigit = true :=
  Nat.isDigit_of_mem_toDigits (by decide) (by decide) mem

theorem ofDigitChars_digitsOf (n : Nat) : Nat.ofDigitChars 10 (digitsOf n) 0 = n :=
  Nat.ofDigitChars_ten_toDigits

def zeros (count : Nat) : List Char := List.replicate count '0'

/-- Places a decimal point `exponent` places from the right of the digits. -/
def Decimal.positional (d : Decimal) : List Char :=
  let ds := digitsOf d.digits
  if 0 ≤ d.exponent then ds ++ zeros d.exponent.toNat
  else
    let fraction := (-d.exponent).toNat
    if fraction < ds.length then
      ds.take (ds.length - fraction) ++ '.' :: ds.drop (ds.length - fraction)
    else '0' :: '.' :: (zeros (fraction - ds.length) ++ ds)

namespace Binary64

def signText (negative : Bool) : List Char := if negative then ['-'] else []

/-- The fewest digits that read back, without an exponent and without a point in whole
numbers: `-0`, `0.0000001`, `inf`, `NaN`. -/
def positional : Binary64 → String
  | .finite s r _ => String.ofList (signText s ++ (Shortest.ofRank .upward r).positional)
  | .infinity s => String.ofList (signText s ++ ['i', 'n', 'f'])
  | .nan => "NaN"

/-- The magnitudes that `compact` writes without an exponent, given by the place of the
leading digit before the point. -/
def compactPlaces (place : Int) : Bool := decide (-5 < place) && decide (place ≤ 16)

/-- The fewest digits that read back, with at least one digit after the point, or with a
signed exponent outside `compactPlaces`: `2.0`, `1.5e-7`, `1e+16`. -/
def compact : Binary64 → String
  | .finite s r _ =>
    let d := Shortest.ofRank .even r
    let ds := digitsOf d.digits
    let place := d.exponent + ds.length
    let text :=
      if d.digits = 0 || compactPlaces place then
        if 0 ≤ d.exponent then d.positional ++ ['.', '0'] else d.positional
      else
        let mantissa := match ds with
          | [] => []
          | [c] => [c]
          | c :: rest => c :: '.' :: rest
        let power := place - 1
        mantissa ++ 'e' :: (if power < 0 then '-' else '+') :: digitsOf power.natAbs
    String.ofList (signText s ++ text)
  | .infinity s => String.ofList (signText s ++ ['i', 'n', 'f'])
  | .nan => "NaN"

def digitsValue (acc : Nat) (ds : List Char) : Nat :=
  ds.foldl (fun n c => n * 10 + (c.toNat - 48)) acc

/-- An exponent: a sign or none, and at least one digit to the end. -/
def readExponent? (cs : List Char) : Option Int :=
  let (negative, digits) := match cs with
    | '-' :: rest => (true, rest)
    | '+' :: rest => (false, rest)
    | rest => (false, rest)
  if !digits.isEmpty && digits.all Char.isDigit then
    let value : Int := digitsValue 0 digits
    some (if negative then -value else value)
  else none

/-- Digits with at most one point among or around them, and an exponent or none. -/
def readUnsigned? (negative : Bool) (cs : List Char) : Option Binary64 :=
  let whole := cs.takeWhile Char.isDigit
  let rest := cs.dropWhile Char.isDigit
  let (fraction, rest) := match rest with
    | '.' :: rest => (rest.takeWhile Char.isDigit, rest.dropWhile Char.isDigit)
    | rest => ([], rest)
  let digits := digitsValue 0 (whole ++ fraction)
  if whole.isEmpty && fraction.isEmpty then none
  else match rest with
    | [] => some (ofDecimal negative digits (-(fraction.length : Int)))
    | c :: rest =>
      if c = 'e' || c = 'E' then
        (readExponent? rest).map fun e => ofDecimal negative digits (e - fraction.length)
      else none

/-- The names of the values that no digits denote, in any case of letters. -/
def readName? (negative : Bool) (cs : List Char) : Option Binary64 :=
  let name := cs.map Char.toLower
  if name = "inf".toList || name = "infinity".toList then some (.infinity negative)
  else if name = "nan".toList then some .nan
  else none

def readMagnitude? (negative : Bool) (cs : List Char) : Option Binary64 :=
  (readUnsigned? negative cs).orElse fun _ => readName? negative cs

/-- Reads a number that fills the whole text, correctly rounded. -/
def read? (s : String) : Option Binary64 :=
  match s.toList with
  | '-' :: rest => readMagnitude? true rest
  | '+' :: rest => readMagnitude? false rest
  | cs => readMagnitude? false cs

end Binary64
end MacroGraph
