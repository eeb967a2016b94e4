import MacroGraph.Number.Binary64

namespace MacroGraph

structure Duration where
  nanoseconds : Nat
  deriving DecidableEq, Repr, Inhabited

namespace Duration

def perSecond : Nat := 1000000000

def zero : Duration := ⟨0⟩

def longest : Duration := ⟨(1 <<< 64) * perSecond - 1⟩

def ofMilliseconds (ms : Nat) : Duration := ⟨ms * 1000000⟩

def milliseconds (d : Duration) : Nat := d.nanoseconds / 1000000

/-- The nearest duration to a number of seconds. Numbers that are negative or not finite
are no time at all, and too large ones the longest. -/
def ofSeconds (x : Binary64) : Duration :=
  match x with
  | .finite false rank _ =>
    let ns := Binary64.nearestQuotient (Binary64.units rank * perSecond) unitsInOne
    if ns < (1 <<< 64) * perSecond then ⟨ns⟩ else longest
  | _ => zero

/-- Whole seconds plus the fraction, each rounded by itself and then their sum. -/
def toSeconds (d : Duration) : Binary64 :=
  (Binary64.ofNat (d.nanoseconds / perSecond)).add
    ((Binary64.ofNat (d.nanoseconds % perSecond)).div (.ofNat perSecond))

/-- An amount in a unit, in seconds. An unknown unit counts as seconds. -/
def inSeconds (amount : Binary64) (unit : String) : Binary64 :=
  if ["milliseconds", "millisecond", "ms"].contains unit then amount.div (.ofNat 1000)
  else if ["minutes", "minute", "min"].contains unit then amount.mul (.ofNat 60)
  else amount

end Duration
end MacroGraph
