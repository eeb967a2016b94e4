import MacroGraph.Proofs.Number.Integer
import MacroGraph.Value

namespace MacroGraph.Value
open Binary64

section Writing
variable {x : Binary64} {k : Int}

theorem wholeBound_eq : wholeBound = 2 ^ 63 := by decide

theorem toList_toString_signed (negative : Bool) (n : Nat) :
    (toString (signed negative n)).toList =
      if negative && n != 0 then '-' :: digitsOf n else digitsOf n := by
  have sign : decide (signed negative n < 0) = (negative && n != 0) := by
    rw [Bool.eq_iff_iff, decide_eq_true_iff, signed_neg_iff]
    simp
  rw [toList_toString, natAbs_signed, sign]
  cases negative && n != 0 <;> rfl

/-- Where all digits are written, they are those of the number's cast to 64 bits. The bound is the
first magnitude beyond those integers, so the cast is never cut off. -/
theorem numberText_of_isWhole (whole : x.isWhole = true) (below : x.wholeMagnitude < wholeBound) :
    numberText x = toString (x.toIntWithin (-(2 ^ 63)) (2 ^ 63 - 1)) := by
  cases x with
  | infinity | nan => cases whole
  | finite negative rank bounded =>
    have inside : (finite negative rank bounded).toIntWithin (-(2 ^ 63)) (2 ^ 63 - 1) =
        signed negative (finite negative rank bounded).wholeMagnitude := by
      rw [wholeBound_eq] at below
      have magnitude := natAbs_signed negative (finite negative rank bounded).wholeMagnitude
      rw [toIntWithin_finite]
      omega
    apply String.toList_injective
    rw [inside, toList_toString_signed, numberText, if_pos (by simp [whole, below]),
      String.toList_ofList]
    rfl

theorem numberText_of_represents (same : x.Represents k) (small : k.natAbs < 2 ^ 63) :
    numberText x = toString k := by
  have below : x.wholeMagnitude < wholeBound := by
    rw [same.wholeMagnitude, wholeBound_eq]
    exact small
  rw [numberText_of_isWhole same.isWhole below, same.toIntWithin (by omega) (by omega)]

example : numberText (.finite true 0 (by decide)) = "0" := by decide +kernel

end Writing

section Reading

theorem isBlank_of_isDigit {c : Char} (digit : c.isDigit = true) : isBlank c = false := by
  obtain ⟨low, high⟩ : 48 ≤ c.toNat ∧ c.toNat ≤ 57 := Char.isDigit_iff_toNat.1 digit
  simp only [isBlank, withinRanges, blankRanges, List.any_eq_false]
  simp
  omega

theorem trim_toString (k : Int) : trim (toString k) = toString k := by
  have dark : ∀ c ∈ (toString k).toList, isBlank c = false := by
    intro c mem
    rw [toList_toString, List.mem_append] at mem
    rcases mem with sign | digit
    · obtain ⟨-, rfl⟩ : k < 0 ∧ c = '-' := by simpa [signText] using sign
      decide
    · exact isBlank_of_isDigit (isDigit_of_mem_digitsOf digit)
  rw [trim, trimChars_eq_self _ dark, String.ofList_toList]

theorem numberOfText_toString (k : Int) : numberOfText (toString k) = finiteOrZero (.ofInt k) := by
  rw [numberOfText, trim_toString, read?_toString, Option.getD_some]

end Reading

/-- A number that is an integer below `2 ^ 63` in magnitude becomes the decimal text of that
integer: a minus sign when it is negative, then digits alone, without a point or an exponent. The
text becomes the same number again, but for the sign of zero. -/
theorem whole_numbers_survive_text {x : Binary64} {k : Int} (same : x.Represents k)
    (small : k.natAbs < 2 ^ 63) :
    (number x).coerce .text = .text (toString k) ∧
      (∃ digits, (toString k).toList = (if k < 0 then ['-'] else []) ++ digits ∧
        (∀ c ∈ digits, c.isDigit = true) ∧ Nat.ofDigitChars 10 digits 0 = k.natAbs) ∧
      ∃ y, (text (toString k)).coerce .number = .number y ∧ y.Represents k ∧ y.eq x = true := by
  refine ⟨?written, ?digits, ?read⟩
  case written => exact congrArg text (numberText_of_represents same small)
  case digits =>
    refine ⟨digitsOf k.natAbs, ?_, fun _ => isDigit_of_mem_digitsOf, ofDigitChars_digitsOf _⟩
    simpa [signText] using toList_toString k
  case read =>
    have finite : (Binary64.ofInt k).isFinite = true := same.ofInt.1
    refine ⟨.ofInt k, ?_, same.ofInt, same.ofInt.eq same⟩
    rw [coerce, toNumber, numberOfText_toString, finiteOrZero, if_pos finite]

/-- The negative integer of largest magnitude that is written with all its digits. It has the last
rank before that of `2 ^ 63`. -/
theorem farthest_survives_text :
    let x : Binary64 := .finite true (1086 * binade - 1) (by decide)
    x.Represents (-9223372036854774784) ∧
      (number x).coerce .text = .text "-9223372036854774784" ∧
      ∃ y, (text "-9223372036854774784").coerce .number = .number y ∧ y.eq x = true := by
  intro x
  have same : x.Represents (-9223372036854774784) := by decide +kernel
  obtain ⟨written, -, y, read, -, equal⟩ := whole_numbers_survive_text same (by decide)
  exact ⟨same, written, y, read, equal⟩

end MacroGraph.Value
