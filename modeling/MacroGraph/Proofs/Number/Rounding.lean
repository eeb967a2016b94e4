import Mathlib.Data.Nat.Log
import Mathlib.Tactic.Linarith
import Mathlib.Tactic.Ring
import MacroGraph.Number.Binary64

/-!
Rounding keeps the order of quotients: `Binary64.nearestRank_mono`. A quotient that is a magnitude
itself is rounded to the rank of that magnitude, so what is not beyond the largest magnitude is
rounded to a finite number.
-/
namespace MacroGraph.Binary64

/-- No natural number is nearer a quotient, and this one is even if another is as near. -/
structure IsNearest (num den k : Nat) : Prop where
  low : 2 * k * den ≤ 2 * num + den
  high : 2 * num ≤ (2 * k + 1) * den
  even_low : 2 * k * den = 2 * num + den → k % 2 = 0
  even_high : 2 * num = (2 * k + 1) * den → k % 2 = 0

theorem isNearest_nearestQuotient (num : Nat) {den : Nat} (pos : 0 < den) :
    IsNearest num den (nearestQuotient num den) := by
  have split : den * (num / den) + num % den = num := Nat.div_add_mod num den
  have less := Nat.mod_lt num pos
  unfold nearestQuotient
  generalize num / den = whole at *
  generalize num % den = rest at *
  have at_whole : 2 * whole * den = 2 * (den * whole) := by ring
  have half_way : (2 * whole + 1) * den = 2 * (den * whole) + den := by ring
  have at_next : 2 * (whole + 1) * den = 2 * (den * whole) + 2 * den := by ring
  have beyond : (2 * (whole + 1) + 1) * den = 2 * (den * whole) + 3 * den := by ring
  have parity := Nat.mod_two_eq_zero_or_one whole
  simp only
  split
  · constructor <;> omega
  split
  · constructor <;> omega
  · rcases parity with even | odd
    · rw [even]
      constructor <;> simp only [Nat.add_zero] <;> omega
    · rw [odd]
      constructor <;> omega

/-- Of two quotients in order the nearest numbers are in order: if they were not, both quotients would
be half way between them, and both numbers even. -/
theorem IsNearest.le {num den k num' den' k' : Nat} (first : IsNearest num den k)
    (second : IsNearest num' den' k') (pos : 0 < den) (pos' : 0 < den')
    (le : num * den' ≤ num' * den) : k ≤ k' := by
  by_contra above
  rw [Nat.not_le] at above
  have half : (2 * k' + 1) * den ≤ 2 * num := by nlinarith [first.low]
  have half' : 2 * num' ≤ (2 * k' + 1) * den' := second.high
  have across : (2 * k' + 1) * den * den' ≤ 2 * num * den' := Nat.mul_le_mul_right den' half
  have across' : 2 * num' * den ≤ (2 * k' + 1) * den' * den := Nat.mul_le_mul_right den half'
  have tie : 2 * num = (2 * k' + 1) * den := by
    apply Nat.le_antisymm _ half
    apply Nat.le_of_mul_le_mul_right _ pos'
    nlinarith
  have tie' : 2 * num' = (2 * k' + 1) * den' := by
    apply Nat.le_antisymm half'
    apply Nat.le_of_mul_le_mul_right _ pos
    nlinarith
  have next : k = k' + 1 := by
    have low := first.low
    rw [tie] at low
    have : 2 * k * den ≤ (2 * k' + 2) * den := by nlinarith
    have := Nat.le_of_mul_le_mul_right this pos
    omega
  have even' := second.even_high tie'
  have even := first.even_low (by rw [tie, next]; ring)
  omega

theorem nearestQuotient_mono {num den num' den' : Nat} (pos : 0 < den) (pos' : 0 < den')
    (le : num * den' ≤ num' * den) : nearestQuotient num den ≤ nearestQuotient num' den' :=
  (isNearest_nearestQuotient num pos).le (isNearest_nearestQuotient num' pos') pos pos' le

def exponentOf (num den : Nat) : Nat := (num / den).log2 - 52

theorem nearestRank_eq (num den : Nat) : nearestRank num den =
    exponentOf num den * binade + nearestQuotient num (den <<< exponentOf num den) := rfl

theorem nearestRank_le_of_exponent (num : Nat) {den : Nat} (pos : 0 < den) :
    nearestRank num den ≤ (exponentOf num den + 2) * binade := by
  have scaled : 0 < den <<< exponentOf num den := Nat.shiftLeft_pos_iff.2 pos
  have small : num ≤ 2 * binade * den <<< exponentOf num den := by
    have log : (num / den).log2 + 1 ≤ 53 + exponentOf num den := by
      unfold exponentOf
      omega
    have whole : num / den < 2 ^ (53 + exponentOf num den) :=
      Nat.lt_of_lt_of_le Nat.lt_log2_self (Nat.pow_le_pow_right (by decide) log)
    have below := (Nat.div_lt_iff_lt_mul pos).1 whole
    rw [Nat.pow_add] at below
    rw [Nat.shiftLeft_eq, show 2 * binade = 2 ^ 53 from rfl]
    linarith
  have quotient : nearestQuotient num (den <<< exponentOf num den) ≤ 2 * binade := by
    rw [← nearestQuotient_mul (2 * binade) _ scaled]
    exact nearestQuotient_mono scaled scaled (Nat.mul_le_mul_right _ small)
  rw [nearestRank_eq, Nat.add_mul]
  omega

theorem le_nearestRank_of_exponent {num den : Nat} (pos : 0 < den)
    (normal : 0 < exponentOf num den) :
    (exponentOf num den + 1) * binade ≤ nearestRank num den := by
  have scaled : 0 < den <<< exponentOf num den := Nat.shiftLeft_pos_iff.2 pos
  have large : binade * den <<< exponentOf num den ≤ num := by
    have log : 52 + exponentOf num den = (num / den).log2 := by
      unfold exponentOf at normal ⊢
      omega
    have ne : num / den ≠ 0 := by
      intro zero
      simp [exponentOf, zero] at normal
    have whole : 2 ^ (52 + exponentOf num den) ≤ num / den := log ▸ Nat.log2_self_le ne
    have above := (Nat.le_div_iff_mul_le pos).1 whole
    rw [Nat.pow_add] at above
    rw [Nat.shiftLeft_eq, show binade = 2 ^ 52 from rfl]
    linarith
  have quotient : binade ≤ nearestQuotient num (den <<< exponentOf num den) := by
    rw [← nearestQuotient_mul binade _ scaled]
    exact nearestQuotient_mono scaled scaled (Nat.mul_le_mul_right _ large)
  rw [nearestRank_eq, Nat.add_mul]
  omega

theorem exponentOf_mono {num den num' den' : Nat} (pos : 0 < den) (pos' : 0 < den')
    (le : num * den' ≤ num' * den) : exponentOf num den ≤ exponentOf num' den' := by
  have whole : num / den ≤ num' / den' := by
    rw [Nat.le_div_iff_mul_le pos']
    apply Nat.le_of_mul_le_mul_right _ pos
    calc num / den * den' * den = num / den * den * den' := by ring
      _ ≤ num * den' := Nat.mul_le_mul_right den' (Nat.div_mul_le_self num den)
      _ ≤ num' * den := le
  have log : (num / den).log2 ≤ (num' / den').log2 := by
    rw [Nat.log2_eq_log_two, Nat.log2_eq_log_two]
    exact Nat.log_mono_right whole
  unfold exponentOf
  omega

/-- Rounding keeps the order of quotients. -/
theorem nearestRank_mono {num den num' den' : Nat} (pos : 0 < den) (pos' : 0 < den')
    (le : num * den' ≤ num' * den) : nearestRank num den ≤ nearestRank num' den' := by
  rcases Nat.eq_or_lt_of_le (exponentOf_mono pos pos' le) with same | less
  · rw [nearestRank_eq, nearestRank_eq, same]
    refine Nat.add_le_add_left (nearestQuotient_mono ?_ ?_ ?_) _
    · exact Nat.shiftLeft_pos_iff.2 pos
    · exact Nat.shiftLeft_pos_iff.2 pos'
    · rw [Nat.shiftLeft_eq, Nat.shiftLeft_eq, ← Nat.mul_assoc, ← Nat.mul_assoc]
      exact Nat.mul_le_mul_right _ le
  · calc nearestRank num den ≤ (exponentOf num den + 2) * binade :=
          nearestRank_le_of_exponent num pos
      _ ≤ (exponentOf num' den' + 1) * binade := Nat.mul_le_mul_right _ (by omega)
      _ ≤ nearestRank num' den' := le_nearestRank_of_exponent pos' (by omega)

theorem nearestRank_units (rank : Nat) {den : Nat} (pos : 0 < den) :
    nearestRank (units rank * den) den = rank := by
  rw [nearestRank_eq, exponentOf, Nat.mul_div_cancel _ pos]
  unfold units
  split
  · next small =>
    have log : rank.log2 - 52 = 0 := by
      rcases Nat.eq_zero_or_pos rank with rfl | one
      · rfl
      · have := log2_le_of_lt one (by omega)
        omega
    rw [log, Nat.zero_mul, Nat.zero_add, Nat.shiftLeft_zero, nearestQuotient_mul _ _ pos]
  · next normal =>
    have split : binade * (rank / binade) + rank % binade = rank := Nat.div_add_mod rank binade
    have less : rank % binade < binade := Nat.mod_lt rank (by decide)
    have some_binade : 1 ≤ rank / binade := (Nat.one_le_div_iff (by decide)).2 (by omega)
    generalize rank / binade = exponent at *
    generalize rank % binade = rest at *
    obtain ⟨exponent, rfl⟩ : ∃ k, exponent = k + 1 := ⟨exponent - 1, by omega⟩
    have log : (binade + rest).log2 = 52 := by
      rw [Nat.log2_eq_iff (by unfold binade; omega), show 2 ^ 52 = binade from rfl,
        show 2 ^ (52 + 1) = 2 * binade from rfl]
      omega
    have scaled : 0 < den <<< exponent := Nat.shiftLeft_pos_iff.2 pos
    rw [Nat.add_sub_cancel, log2_shiftLeft _ (by unfold binade; omega), log,
      Nat.add_sub_cancel_left]
    have product : (binade + rest) <<< exponent * den = (binade + rest) * den <<< exponent := by
      rw [Nat.shiftLeft_eq, Nat.shiftLeft_eq]
      ring
    rw [product, nearestQuotient_mul _ _ scaled, ← split]
    ring

/-- What is not beyond a magnitude is not rounded beyond it. -/
theorem nearestRank_le {num den rank : Nat} (pos : 0 < den) (le : num ≤ units rank * den) :
    nearestRank num den ≤ rank := by
  rw [← nearestRank_units rank pos]
  exact nearestRank_mono pos pos (Nat.mul_le_mul_right den le)

theorem units_mono {rank other : Nat} (le : rank ≤ other) : units rank ≤ units other := by
  by_contra above
  rw [Nat.not_le] at above
  have back : nearestRank (units other * 1) 1 ≤ rank := nearestRank_le Nat.one_pos (by omega)
  rw [nearestRank_units other Nat.one_pos] at back
  cases Nat.le_antisymm le back
  exact Nat.lt_irrefl _ above

theorem units_wholeRank {n : Nat} (pos : 0 < n) (small : n < 2 * binade) :
    units (wholeRank n) = n * unitsInOne := by
  have log := log2_le_of_lt pos small
  have shifted : n <<< (52 - n.log2) <<< (1022 + n.log2) = n * unitsInOne := by
    rw [← Nat.shiftLeft_add, mul_unitsInOne]
    congr 1
    omega
  have bits : (n <<< (52 - n.log2)).log2 = 52 := by
    rw [log2_shiftLeft _ pos]
    omega
  rw [Nat.log2_eq_iff (mt Nat.shiftLeft_eq_zero_iff.1 (by omega)), show 2 ^ 52 = binade from rfl,
    show 2 ^ (52 + 1) = 2 * binade from rfl] at bits
  rw [← shifted]
  unfold wholeRank units
  generalize n <<< (52 - n.log2) = digits at *
  have rank : (1022 + n.log2) * binade + digits =
      digits - binade + binade * (1023 + n.log2) := by
    have step : binade * (1023 + n.log2) = (1022 + n.log2) * binade + binade := by ring
    omega
  have less : digits - binade < binade := by omega
  have normal : ¬ (1022 + n.log2) * binade + digits < binade := by
    have := Nat.zero_le ((1022 + n.log2) * binade)
    omega
  rw [if_neg normal, rank, Nat.add_mul_mod_self_left, Nat.mod_eq_of_lt less,
    Nat.add_mul_div_left _ _ (by decide), Nat.div_eq_of_lt less, Nat.zero_add,
    show binade + (digits - binade) = digits by omega,
    show 1023 + n.log2 - 1 = 1022 + n.log2 by omega]

theorem ofUnits_of_le {num den rank : Nat} (pos : 0 < den) (le : num ≤ units rank * den)
    (bounded : rank < topRank) (negative : Bool) :
    ∃ q h, q ≤ rank ∧ ofUnits negative num den = .finite negative q h := by
  have below := nearestRank_le pos le
  refine ⟨_, Nat.lt_of_le_of_lt below bounded, below, ?_⟩
  rw [ofUnits, dif_pos]

theorem ofNat_of_le {n rank : Nat} (le : n * unitsInOne ≤ units rank) (bounded : rank < topRank) :
    ∃ q h, q ≤ rank ∧ ofNat n = .finite false q h := by
  rw [ofNat_eq_ofUnits]
  exact ofUnits_of_le Nat.one_pos (by rwa [Nat.mul_one]) bounded false

/-- Where a magnitude stands with its sign in the order of all numbers. -/
def signed (negative : Bool) (rank : Nat) : Int := if negative then -(rank : Int) else rank

theorem signed_mono {f : Nat → Nat} (zero : f 0 = 0) (mono : Monotone f) {negative other : Bool}
    {rank next : Nat} (le : signed negative rank ≤ signed other next) :
    signed negative (f rank) ≤ signed other (f next) := by
  cases negative <;> cases other <;> simp only [signed, Bool.false_eq_true, if_false, if_true] at *
  case false.false => exact Int.ofNat_le.2 (mono (Int.ofNat_le.1 le))
  case true.true => exact Int.neg_le_neg (Int.ofNat_le.2 (mono (Int.ofNat_le.1 (by omega))))
  case true.false => omega
  case false.true =>
    obtain ⟨rfl, rfl⟩ : rank = 0 ∧ next = 0 := by omega
    simp [zero]

theorem place_finite (negative : Bool) {rank : Nat} (bounded : rank < topRank) :
    (finite negative rank bounded).place = some (signed negative rank) := rfl

/-- What is rounded beyond all finite numbers stands where the infinities do. -/
theorem place_ofUnits (negative : Bool) (num den : Nat) :
    (ofUnits negative num den).place =
      some (signed negative (min (nearestRank num den) topRank)) := by
  unfold ofUnits
  split
  · next finite => rw [Nat.min_eq_left (Nat.le_of_lt finite), place_finite]
  · next beyond =>
    rw [Nat.min_eq_right (Nat.le_of_not_lt beyond)]
    rfl

theorem le_iff {x y : Binary64} {i j : Int} (first : x.place = some i) (second : y.place = some j) :
    x.le y = true ↔ i ≤ j := by
  simp [le, first, second]

theorem add_of_nonnegative {r q : Nat} (h : r < topRank) (k : q < topRank) :
    add (.finite false r h) (.finite false q k) = ofUnits false (units r + units q) 1 := by
  simp only [add, signedUnits, Bool.false_eq_true, if_false, Bool.and_self]
  split
  · next zero =>
    have : units r + units q = 0 := by omega
    rw [this]
  · rfl

end MacroGraph.Binary64
