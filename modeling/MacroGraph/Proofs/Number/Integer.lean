import Mathlib.Data.List.TakeWhile
import MacroGraph.Number.Text
import MacroGraph.Proofs.Number.Rounding

namespace MacroGraph.Binary64

/-- The number is exactly this integer. Both zeros are the integer zero. -/
def Represents (x : Binary64) (k : Int) : Prop :=
  x.isFinite = true ∧ x.signedUnits = k * unitsInOne

instance (x : Binary64) (k : Int) : Decidable (x.Represents k) :=
  inferInstanceAs (Decidable (_ ∧ _))

section Signs

theorem natAbs_signed (negative : Bool) (n : Nat) : (signed negative n).natAbs = n := by
  cases negative <;> simp [signed]

theorem signed_mul (negative : Bool) (m n : Nat) :
    signed negative (m * n) = signed negative m * n := by
  cases negative <;> simp [signed]

theorem signed_natAbs (k : Int) : signed (decide (k < 0)) k.natAbs = k := by
  unfold signed
  split
  · next below =>
    have below : k < 0 := of_decide_eq_true below
    omega
  · next above =>
    have above : ¬ k < 0 := mt decide_eq_true above
    omega

theorem signed_neg_iff (negative : Bool) (n : Nat) :
    signed negative n < 0 ↔ negative = true ∧ n ≠ 0 := by
  cases negative
  · simp [signed]
  · simp [signed, Nat.pos_iff_ne_zero]

end Signs

section Exactness
variable {x y : Binary64} {k : Int} {negative : Bool} {rank : Nat} {bounded : rank < topRank}

theorem unitsInOne_pos : 0 < unitsInOne := by decide

theorem Represents.exists_finite (same : x.Represents k) :
    ∃ negative rank, ∃ bounded : rank < topRank, x = .finite negative rank bounded := by
  cases x with
  | finite negative rank bounded => exact ⟨negative, rank, bounded, rfl⟩
  | infinity | nan => cases same.1

theorem represents_finite_iff :
    (finite negative rank bounded).Represents k ↔
      signed negative (units rank) = k * unitsInOne := by
  simp [Represents, isFinite, signedUnits, signed]

theorem Represents.units_eq (same : (finite negative rank bounded).Represents k) :
    units rank = k.natAbs * unitsInOne := by
  have magnitude := congrArg Int.natAbs (represents_finite_iff.1 same)
  rwa [natAbs_signed, Int.natAbs_mul, Int.natAbs_natCast] at magnitude

theorem Represents.signed_natAbs (same : (finite negative rank bounded).Represents k) :
    signed negative k.natAbs = k := by
  have positive : (0 : Int) < unitsInOne := Int.natCast_pos.2 unitsInOne_pos
  apply Int.eq_of_mul_eq_mul_right (Int.ne_of_gt positive)
  rw [← signed_mul, ← same.units_eq]
  exact represents_finite_iff.1 same

theorem Represents.isWhole (same : x.Represents k) : x.isWhole = true := by
  obtain ⟨negative, rank, bounded, rfl⟩ := same.exists_finite
  simp [Binary64.isWhole, same.units_eq]

theorem Represents.wholeMagnitude (same : x.Represents k) : x.wholeMagnitude = k.natAbs := by
  obtain ⟨negative, rank, bounded, rfl⟩ := same.exists_finite
  rw [Binary64.wholeMagnitude, same.units_eq, Nat.mul_div_cancel _ unitsInOne_pos]

theorem toIntWithin_finite (low high : Int) :
    (finite negative rank bounded).toIntWithin low high =
      max low (min high (signed negative (finite negative rank bounded).wholeMagnitude)) := rfl

theorem Represents.toIntWithin {low high : Int} (same : x.Represents k) (least : low ≤ k)
    (most : k ≤ high) : x.toIntWithin low high = k := by
  have whole := same.wholeMagnitude
  obtain ⟨negative, rank, bounded, rfl⟩ := same.exists_finite
  rw [toIntWithin_finite, whole, same.signed_natAbs, min_eq_right most, max_eq_right least]

/-- Numbers stand in the order of their magnitudes, since rounding gives the rank of each one back. -/
theorem signed_le_of_units {other : Bool} {next : Nat}
    (le : signed negative (units rank) ≤ signed other (units next)) :
    signed negative rank ≤ signed other next := by
  have back (r : Nat) : nearestRank (units r) 1 = r := by
    simpa using nearestRank_units r Nat.one_pos
  have mono : Monotone fun n => nearestRank n 1 :=
    fun m n le => nearestRank_mono Nat.one_pos Nat.one_pos (Nat.mul_le_mul_right 1 le)
  have ranks := signed_mono (by decide) mono le
  simpa only [back] using ranks

theorem Represents.eq (same : x.Represents k) (same' : y.Represents k) : x.eq y = true := by
  obtain ⟨negative, rank, bounded, rfl⟩ := same.exists_finite
  obtain ⟨other, next, bounded', rfl⟩ := same'.exists_finite
  have units_same : signed negative (units rank) = signed other (units next) :=
    (represents_finite_iff.1 same).trans (represents_finite_iff.1 same').symm
  have places : signed negative rank = signed other next :=
    Int.le_antisymm (signed_le_of_units units_same.le) (signed_le_of_units units_same.ge)
  simp [Binary64.eq, place_finite, places]

/-- An integer that some number represents is not changed by rounding. -/
theorem Represents.ofInt (same : x.Represents k) : (Binary64.ofInt k).Represents k := by
  obtain ⟨negative, rank, bounded, rfl⟩ := same.exists_finite
  have magnitude := same.units_eq
  have rounded : nearestRank (k.natAbs * unitsInOne) 1 = rank := by
    simpa [magnitude] using nearestRank_units rank Nat.one_pos
  have exact : Binary64.ofInt k = .finite (decide (k < 0)) rank bounded := by
    simp [Binary64.ofInt, ofUnits, rounded, bounded]
  rw [exact, represents_finite_iff, magnitude, signed_mul, Binary64.signed_natAbs]

end Exactness

section Reading

theorem digitsValue_eq (acc : Nat) (ds : List Char) :
    digitsValue acc ds = Nat.ofDigitChars 10 ds acc := by
  simp [digitsValue, Nat.ofDigitChars, Nat.mul_comm]

theorem toList_toString (k : Int) :
    (toString k).toList = signText (decide (k < 0)) ++ digitsOf k.natAbs := by
  rw [Int.toString_eq_repr, Int.repr_eq_if]
  by_cases below : k < 0
  · have magnitude : (-k).toNat = k.natAbs := by omega
    simp [Int.not_le.2 below, below, signText, digitsOf, magnitude]
  · have magnitude : k.toNat = k.natAbs := by omega
    simp [below, Int.not_lt.1 below, signText, digitsOf, magnitude]

theorem ofDecimal_zero (negative : Bool) (n : Nat) :
    ofDecimal negative n 0 = ofUnits negative (n * unitsInOne) 1 := by
  by_cases nothing : n = 0
  · rw [ofDecimal, if_pos nothing, nothing, Nat.zero_mul]
  · simp [ofDecimal, nothing]

theorem readMagnitude?_digitsOf (negative : Bool) (n : Nat) :
    readMagnitude? negative (digitsOf n) = some (ofUnits negative (n * unitsInOne) 1) := by
  have whole : (digitsOf n).takeWhile Char.isDigit = digitsOf n :=
    List.takeWhile_eq_self_iff.2 fun _ => isDigit_of_mem_digitsOf
  have rest : (digitsOf n).dropWhile Char.isDigit = [] :=
    List.dropWhile_eq_nil_iff.2 fun _ => isDigit_of_mem_digitsOf
  have value : digitsValue 0 (digitsOf n) = n := by
    rw [digitsValue_eq, ofDigitChars_digitsOf]
  simp [readMagnitude?, readUnsigned?, whole, rest, digitsOf_ne_nil, value, ofDecimal_zero]

theorem read?_toString (k : Int) : read? (toString k) = some (ofInt k) := by
  have magnitude := readMagnitude?_digitsOf (decide (k < 0)) k.natAbs
  rw [read?, toList_toString, ofInt]
  by_cases below : k < 0
  · simpa [below, signText] using magnitude
  · obtain ⟨c, digits, split⟩ := List.exists_cons_of_ne_nil (digitsOf_ne_nil k.natAbs)
    have digit : c.isDigit = true := isDigit_of_mem_digitsOf (split ▸ List.mem_cons_self)
    rw [decide_eq_false below, split] at magnitude ⊢
    rw [signText, if_neg Bool.false_ne_true, List.nil_append]
    split
    · next same =>
      cases same
      cases digit
    · next same =>
      cases same
      cases digit
    · exact magnitude

end Reading

end MacroGraph.Binary64
