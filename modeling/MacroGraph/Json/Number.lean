import MacroGraph.Number.Text

/-!
JSON numbers: as written, and as read. Integers that fit 64 bits are kept exactly. All
others become binary numbers by scaling a significand of at most 64 bits once by a power of
ten, which is not always the nearest number.
-/
namespace MacroGraph.Json

inductive Number where
  | natural (n : Nat)
  | negative (k : Int)
  | real (x : Binary64)
  deriving DecidableEq, Repr

def Number.toBinary64 : Number → Binary64
  | natural n => .ofNat n
  | negative k => .ofInt k
  | real x => x

structure Numeral where
  negative : Bool := false
  whole : List Char
  fraction : Option (List Char) := none
  exponent : Option (Bool × List Char) := none
  deriving DecidableEq, Repr

namespace Numeral

def significandBound : Nat := 1 <<< 64

def exponentBound : Nat := 1 <<< 31

def digitValue (c : Char) : Nat := c.toNat - 48

/-- Takes digits into a significand up to the first that would take it out of bounds.
Answers the significand and the number of digits left. -/
def takeDigits : Nat → List Char → Nat × Nat
  | significand, [] => (significand, 0)
  | significand, c :: rest =>
    let next := significand * 10 + digitValue c
    if next < significandBound then takeDigits next rest
    else (significand, (c :: rest).length)

/-- Scales by a power of ten. A number out of range is none. The significand is below
`2 ^ 64`, so a few rounds of division by `10 ^ 308` leave zero or an exponent in reach. -/
def scaled : Nat → Binary64 → Int → Option Binary64
  | 0, x, _ => some x
  | rounds + 1, x, exponent =>
    if exponent.natAbs ≤ 308 then
      let power := Binary64.ofDecimal false 1 exponent.natAbs
      if 0 ≤ exponent then
        let y := x.mul power
        if y.isFinite then some y else none
      else some (x.div power)
    else if x.isZero then some x
    else if 0 ≤ exponent then none
    else scaled rounds (x.div (.ofDecimal false 1 308)) (exponent + 308)

def signed (negative : Bool) (x : Binary64) : Binary64 := if negative then x.neg else x

/-- The real number of a significand, a power of ten and a written exponent. An exponent
that cannot be computed is out of range unless it or the significand makes the number
zero. -/
def real (n : Numeral) (significand : Nat) (power : Int) : Option Binary64 :=
  match n.exponent with
  | none => (scaled 8 (.ofNat significand) power).map (signed n.negative)
  | some (below, digits) =>
    let written := Binary64.digitsValue 0 digits
    if written < exponentBound then
      let exponent := if below then power - written else power + written
      (scaled 8 (.ofNat significand) exponent).map (signed n.negative)
    else if significand ≠ 0 && !below then none
    else some (signed n.negative .zero)

def read? (n : Numeral) : Option Number :=
  let (significand, left) := takeDigits 0 n.whole
  match n.fraction with
  | some digits =>
    let (longer, unused) := takeDigits significand digits
    (n.real longer ((left : Int) - (digits.length - unused : Nat))).map .real
  | none =>
    if n.exponent.isSome || left ≠ 0 then (n.real significand left).map .real
    else if !n.negative then some (.natural significand)
    else if significand ≠ 0 && decide (significand ≤ 1 <<< 63) then
      some (.negative (-(significand : Int)))
    else some (.real (Binary64.ofNat significand).neg)

end Numeral

/-- Numbers in JSON text. Reals have a point or an exponent. -/
def Number.text : Number → String
  | natural n => String.ofList (digitsOf n)
  | negative k => String.ofList ('-' :: digitsOf k.natAbs)
  | real x => x.compact

end MacroGraph.Json
