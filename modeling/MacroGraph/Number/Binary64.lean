/-!
Numbers in 64 bits, computed exactly. A finite number is a sign and a rank: the
place of its magnitude among all magnitudes in increasing order, which are multiples of
`2 ^ -1074`. Every operation computes its exact result as a quotient of natural numbers
and rounds once, to the nearest magnitude and on a tie to the even rank.
-/
namespace MacroGraph

def binade : Nat := 1 <<< 52

/-- The rank that would follow the largest finite magnitude. -/
def topRank : Nat := 2047 * binade

def unitsInOne : Nat := 1 <<< 1074

/-- A number in 64 bits. All values that are not a number count as one. -/
inductive Binary64 where
  | finite (negative : Bool) (rank : Nat) (bounded : rank < topRank)
  | infinity (negative : Bool)
  | nan
  deriving DecidableEq, Repr

namespace Binary64

def units (rank : Nat) : Nat :=
  if rank < binade then rank else (binade + rank % binade) <<< (rank / binade - 1)

/-- The natural number nearest a quotient, the even one on a tie. -/
def nearestQuotient (num den : Nat) : Nat :=
  let whole := num / den
  let doubled := 2 * (num % den)
  if doubled < den then whole
  else if den < doubled then whole + 1
  else whole + whole % 2

/-- The rank whose magnitude is nearest `num / den` units, the even one on a tie. It is
not below `topRank` when the quotient is out of range. -/
def nearestRank (num den : Nat) : Nat :=
  let exponent := (num / den).log2 - 52
  exponent * binade + nearestQuotient num (den <<< exponent)

def ofUnits (negative : Bool) (num den : Nat) : Binary64 :=
  if h : nearestRank num den < topRank then .finite negative (nearestRank num den) h
  else .infinity negative

def zero : Binary64 := .finite false 0 (by decide)

instance : Inhabited Binary64 := ⟨zero⟩

/-- The rank of a natural number from 1 to `2 ^ 53 - 1`, which is a magnitude itself. -/
def wholeRank (n : Nat) : Nat := (1022 + n.log2) * binade + n <<< (52 - n.log2)

theorem log2_le_of_lt {n : Nat} (pos : 0 < n) (small : n < 2 * binade) : n.log2 ≤ 52 := by
  have : n.log2 < 53 := (Nat.log2_lt (by omega)).2 (by simpa [binade] using small)
  omega

theorem wholeRank_lt {n : Nat} (pos : 0 < n) (small : n < 2 * binade) :
    wholeRank n < topRank := by
  have le := log2_le_of_lt pos small
  have up : n <<< (52 - n.log2) < 2 * binade := by
    calc n <<< (52 - n.log2) = n * 2 ^ (52 - n.log2) := Nat.shiftLeft_eq _ _
      _ < 2 ^ (n.log2 + 1) * 2 ^ (52 - n.log2) :=
          Nat.mul_lt_mul_of_pos_right Nat.lt_log2_self (Nat.two_pow_pos _)
      _ = 2 * binade := by
          rw [← Nat.pow_add, show n.log2 + 1 + (52 - n.log2) = 53 by omega]; rfl
  unfold wholeRank topRank
  unfold binade at *
  omega

theorem nearestQuotient_mul (k den : Nat) (pos : 0 < den) :
    nearestQuotient (k * den) den = k := by
  simp [nearestQuotient, Nat.mul_div_cancel _ pos, pos]

theorem log2_shiftLeft {n : Nat} (k : Nat) (pos : 0 < n) : (n <<< k).log2 = n.log2 + k := by
  have ne : n ≠ 0 := by omega
  rw [Nat.log2_eq_iff (mt Nat.shiftLeft_eq_zero_iff.1 ne), Nat.shiftLeft_eq]
  rw [Nat.pow_add, show n.log2 + k + 1 = n.log2 + 1 + k by omega, Nat.pow_add]
  exact ⟨Nat.mul_le_mul_right _ (Nat.log2_self_le ne),
    Nat.mul_lt_mul_of_pos_right Nat.lt_log2_self (Nat.two_pow_pos k)⟩

theorem mul_unitsInOne (n : Nat) : n * unitsInOne = n <<< 1074 := by
  rw [unitsInOne, Nat.one_shiftLeft, Nat.shiftLeft_eq]

theorem nearestRank_whole {n : Nat} (pos : 0 < n) (small : n < 2 * binade) :
    nearestRank (n * unitsInOne) 1 = wholeRank n := by
  have le := log2_le_of_lt pos small
  have exponent : (n * unitsInOne / 1).log2 - 52 = 1022 + n.log2 := by
    rw [Nat.div_one, mul_unitsInOne, log2_shiftLeft 1074 pos]
    omega
  have whole : n * unitsInOne = n <<< (52 - n.log2) * 1 <<< (1022 + n.log2) := by
    have sum : 1074 = 52 - n.log2 + (1022 + n.log2) := by omega
    rw [mul_unitsInOne, Nat.one_shiftLeft, ← Nat.shiftLeft_eq, ← Nat.shiftLeft_add, ← sum]
  rw [nearestRank, exponent, whole,
    nearestQuotient_mul _ _ (Nat.shiftLeft_pos_iff.2 Nat.one_pos), wholeRank]

/-- The number nearest a natural number, which below `2 ^ 53` is that number itself. -/
def ofNat (n : Nat) : Binary64 :=
  if h : 0 < n ∧ n < 2 * binade then .finite false (wholeRank n) (wholeRank_lt h.1 h.2)
  else ofUnits false (n * unitsInOne) 1

theorem ofNat_eq_ofUnits (n : Nat) : ofNat n = ofUnits false (n * unitsInOne) 1 := by
  unfold ofNat
  split
  · next h => simp [ofUnits, nearestRank_whole h.1 h.2, wholeRank_lt h.1 h.2]
  · rfl

def ofInt (k : Int) : Binary64 := ofUnits (k < 0) (k.natAbs * unitsInOne) 1

def one : Binary64 := .finite false (1023 * binade) (by decide)

def isFinite : Binary64 → Bool
  | .finite .. => true
  | _ => false

def isNegative : Binary64 → Bool
  | .finite s _ _ => s
  | .infinity s => s
  | .nan => false

/-- The units of a finite number with its sign; zero for the others. -/
def signedUnits : Binary64 → Int
  | .finite s r _ => if s then -(units r : Int) else (units r : Int)
  | _ => 0

/-- The place in the order of all numbers, where both zeros stand at zero. What is not a
number has none. -/
def place : Binary64 → Option Int
  | .finite s r _ => some (if s then -(r : Int) else (r : Int))
  | .infinity s => some (if s then -(topRank : Int) else (topRank : Int))
  | .nan => none

/-- Numeric equality: both zeros are equal, and what is not a number equals nothing. -/
def eq (a b : Binary64) : Bool :=
  match a.place, b.place with
  | some i, some j => i == j
  | _, _ => false

def lt (a b : Binary64) : Bool :=
  match a.place, b.place with
  | some i, some j => decide (i < j)
  | _, _ => false

def le (a b : Binary64) : Bool :=
  match a.place, b.place with
  | some i, some j => decide (i ≤ j)
  | _, _ => false

def isZero (a : Binary64) : Bool := a.eq zero

def neg : Binary64 → Binary64
  | .finite s r h => .finite (!s) r h
  | .infinity s => .infinity (!s)
  | .nan => .nan

/-- A sum of zero is negative only when both terms are. -/
def add : Binary64 → Binary64 → Binary64
  | .nan, _ => .nan
  | _, .nan => .nan
  | .infinity s, .infinity t => if s = t then .infinity s else .nan
  | .infinity s, _ => .infinity s
  | _, .infinity t => .infinity t
  | .finite s r h, .finite t q k =>
    let sum := signedUnits (.finite s r h) + signedUnits (.finite t q k)
    if sum = 0 then ofUnits (s && t) 0 1 else ofUnits (sum < 0) sum.natAbs 1

def sub (a b : Binary64) : Binary64 := a.add b.neg

def mul : Binary64 → Binary64 → Binary64
  | .nan, _ => .nan
  | _, .nan => .nan
  | .infinity s, .infinity t => .infinity (s != t)
  | .infinity s, .finite t q _ => if q = 0 then .nan else .infinity (s != t)
  | .finite s r _, .infinity t => if r = 0 then .nan else .infinity (s != t)
  | .finite s r _, .finite t q _ => ofUnits (s != t) (units r * units q) unitsInOne

def div : Binary64 → Binary64 → Binary64
  | .nan, _ => .nan
  | _, .nan => .nan
  | .infinity _, .infinity _ => .nan
  | .infinity s, .finite t _ _ => .infinity (s != t)
  | .finite s _ _, .infinity t => .finite (s != t) 0 (by decide)
  | .finite s r _, .finite t q _ =>
    if q = 0 then (if r = 0 then .nan else .infinity (s != t))
    else ofUnits (s != t) (units r * unitsInOne) (units q)

/-- The larger of a number and zero; zero for what is not a number. -/
def clampBelow : Binary64 → Binary64
  | .finite false r h => .finite false r h
  | .infinity false => .infinity false
  | _ => zero

def isWhole : Binary64 → Bool
  | .finite _ r _ => units r % unitsInOne == 0
  | _ => false

/-- The magnitude without its fraction; zero when not finite. -/
def wholeMagnitude : Binary64 → Nat
  | .finite _ r _ => units r / unitsInOne
  | _ => 0

/-- The number without its fraction, kept between two bounds that infinities reach. What
is not a number counts as zero. -/
def toIntWithin (low high : Int) : Binary64 → Int
  | .finite s r h =>
    let whole : Int := wholeMagnitude (.finite s r h)
    max low (min high (if s then -whole else whole))
  | .infinity s => if s then low else high
  | .nan => 0

/-- The number `digits · 10 ^ exponent`, correctly rounded. Exponents beyond every finite
magnitude are answered without computing the power. -/
def ofDecimal (negative : Bool) (digits : Nat) (exponent : Int) : Binary64 :=
  if digits = 0 then ofUnits negative 0 1
  else if 400 < exponent then .infinity negative
  else if 0 ≤ exponent then ofUnits negative (digits * Nat.pow 10 exponent.toNat * unitsInOne) 1
  else if exponent < -(400 + (digits.log2 : Int)) then ofUnits negative 0 1
  else ofUnits negative (digits * unitsInOne) (Nat.pow 10 (-exponent).toNat)

theorem isFinite_clampBelow (a : Binary64) (h : a.isFinite = true) :
    a.clampBelow.isFinite = true := by
  cases a with
  | finite s r b => cases s <;> rfl
  | infinity s => simp [isFinite] at h
  | nan => rfl

end Binary64
end MacroGraph
