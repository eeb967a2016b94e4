import MacroGraph.Duration
import MacroGraph.Proofs.Number.Rounding

namespace MacroGraph

namespace Binary64

theorem ofNat_eq_wholeRank {n : Nat} (pos : 0 < n) (small : n < 2 * binade) :
    ofNat n = .finite false (wholeRank n) (wholeRank_lt pos small) := by
  rw [ofNat, dif_pos ⟨pos, small⟩]

theorem wholeRank_ne_zero {n : Nat} (pos : 0 < n) (small : n < 2 * binade) : wholeRank n ≠ 0 := by
  intro zero
  have nothing := units_wholeRank pos small
  rw [zero] at nothing
  have positive : 0 < n * unitsInOne := Nat.mul_pos pos (by decide)
  rw [← nothing] at positive
  exact absurd positive (by decide)

section
variable (negative : Bool) {rank n : Nat} (bounded : rank < topRank) (pos : 0 < n)
  (small : n < 2 * binade)
include pos small

theorem mul_ofNat : mul (.finite negative rank bounded) (.ofNat n) =
    ofUnits negative (units rank * (n * unitsInOne)) unitsInOne := by
  rw [ofNat_eq_wholeRank pos small, mul, units_wholeRank pos small, Bool.bne_false]

theorem div_ofNat : div (.finite negative rank bounded) (.ofNat n) =
    ofUnits negative (units rank * unitsInOne) (n * unitsInOne) := by
  rw [ofNat_eq_wholeRank pos small, div, if_neg (wholeRank_ne_zero pos small),
    units_wholeRank pos small, Bool.bne_false]

theorem div_ofNat_finite :
    ∃ q h, q ≤ rank ∧ div (.finite negative rank bounded) (.ofNat n) = .finite negative q h := by
  rw [div_ofNat negative bounded pos small]
  refine ofUnits_of_le (Nat.mul_pos pos (by decide)) ?_ bounded negative
  exact Nat.mul_le_mul_left _ (Nat.le_mul_of_pos_left _ pos)

end

theorem isNegative_clampBelow (x : Binary64) : x.clampBelow.isNegative = false := by
  cases x with
  | finite negative => cases negative <;> rfl
  | infinity negative => cases negative <;> rfl
  | nan => rfl

end Binary64

namespace Duration
open Binary64

/-- The unit that can take a finite amount beyond all finite numbers of seconds, in its spellings. -/
def minutes : List String := ["minutes", "minute", "min"]

/-- The rank before that of `2 ^ 1024 / 60`, which is `2 ^ 56 / 15` in units of its last place. -/
def mostMinutesRank : Nat := 2040 * binade + (1 <<< 56) / 15 - 1

def mostMinutes : Binary64 := .finite false mostMinutesRank (by decide)

theorem sixty_times_most : nearestRank (units mostMinutesRank * (60 * unitsInOne)) unitsInOne <
    topRank := by
  decide +kernel

theorem sixty_times_more :
    topRank ≤ nearestRank (units (mostMinutesRank + 1) * (60 * unitsInOne)) unitsInOne := by
  decide +kernel

theorem sixtyfold_lt_iff {rank : Nat} :
    nearestRank (units rank * (60 * unitsInOne)) unitsInOne < topRank ↔ rank ≤ mostMinutesRank := by
  have positive : 0 < unitsInOne := by decide
  have grows : ∀ {r q}, r ≤ q → nearestRank (units r * (60 * unitsInOne)) unitsInOne ≤
      nearestRank (units q * (60 * unitsInOne)) unitsInOne := fun le =>
    nearestRank_mono positive positive
      (Nat.mul_le_mul_right _ (Nat.mul_le_mul_right _ (units_mono le)))
  constructor
  · intro below
    by_contra above
    have beyond := Nat.le_trans sixty_times_more (grows (Nat.lt_of_not_le above))
    omega
  · intro le
    exact Nat.lt_of_le_of_lt (grows le) sixty_times_most

theorem mostMinutes_lt_iff {negative : Bool} {rank : Nat} {bounded : rank < topRank} :
    mostMinutes.lt (.finite negative rank bounded) = true ↔
      negative = false ∧ mostMinutesRank < rank := by
  cases negative <;> simp [mostMinutes, lt, place]

/-- A finite amount in a unit is a finite number of seconds, or it is too many minutes. -/
theorem inSeconds_cases (negative : Bool) {rank : Nat} (bounded : rank < topRank) (unit : String) :
    (inSeconds (.finite negative rank bounded) unit).isFinite = true ∧
        ¬ (unit ∈ minutes ∧ mostMinutesRank < rank) ∨
      inSeconds (.finite negative rank bounded) unit = .infinity negative ∧
        unit ∈ minutes ∧ mostMinutesRank < rank := by
  unfold inSeconds
  split
  · next milliseconds =>
    obtain ⟨q, h, _, quotient⟩ :=
      div_ofNat_finite negative bounded (n := 1000) (by decide) (by decide)
    have apart : unit ∉ minutes := by
      have named := List.contains_iff_mem.1 milliseconds
      have disjoint : ∀ u ∈ ["milliseconds", "millisecond", "ms"], u ∉ minutes := by decide
      exact disjoint unit named
    rw [quotient]
    exact .inl ⟨rfl, fun too => apart too.1⟩
  split
  · next named =>
    rw [mul_ofNat negative bounded (by decide) (by decide), ofUnits]
    by_cases fits : rank ≤ mostMinutesRank
    · rw [dif_pos (sixtyfold_lt_iff.2 fits)]
      exact .inl ⟨rfl, fun too => by omega⟩
    · rw [dif_neg (mt sixtyfold_lt_iff.1 fits)]
      exact .inr ⟨rfl, List.contains_iff_mem.1 named, Nat.lt_of_not_le fits⟩
  · next unnamed => exact .inl ⟨rfl, fun too => unnamed (List.contains_iff_mem.2 too.1)⟩

theorem clampBelow_inSeconds {amount : Binary64} (finite : amount.isFinite = true)
    (unit : String) :
    (inSeconds amount unit).clampBelow.isFinite = true ∧
        ¬ (unit ∈ minutes ∧ mostMinutes.lt amount = true) ∨
      (inSeconds amount unit).clampBelow = .infinity false ∧
        unit ∈ minutes ∧ mostMinutes.lt amount = true := by
  cases amount with
  | infinity | nan => cases finite
  | finite negative rank bounded =>
    rw [mostMinutes_lt_iff]
    rcases inSeconds_cases negative bounded unit with ⟨seconds, few⟩ | ⟨beyond, named, many⟩
    · exact .inl ⟨isFinite_clampBelow _ seconds, fun too => few ⟨too.1, too.2.2⟩⟩
    · rw [beyond]
      cases negative with
      | false => exact .inr ⟨rfl, named, rfl, many⟩
      | true => exact .inl ⟨rfl, by simp⟩

theorem inSeconds_eq_infinity_iff {amount : Binary64} (finite : amount.isFinite = true)
    {unit : String} :
    inSeconds amount unit = .infinity false ↔ unit ∈ minutes ∧ mostMinutes.lt amount = true := by
  cases amount with
  | infinity | nan => cases finite
  | finite negative rank bounded =>
    rw [mostMinutes_lt_iff]
    rcases inSeconds_cases negative bounded unit with ⟨seconds, few⟩ | ⟨beyond, named, many⟩
    · constructor
      · intro beyond
        rw [beyond] at seconds
        cases seconds
      · exact fun too => absurd ⟨too.1, too.2.2⟩ few
    · rw [beyond]
      simp [named, many]

theorem place_inSeconds (unit : String) :
    ∃ f : Nat → Nat, f 0 = 0 ∧ Monotone f ∧ ∀ negative {rank} (bounded : rank < topRank),
      (inSeconds (.finite negative rank bounded) unit).place = some (signed negative (f rank)) := by
  have positive : 0 < unitsInOne := by decide
  unfold inSeconds
  split
  · refine ⟨fun rank => min (nearestRank (units rank * unitsInOne) (1000 * unitsInOne)) topRank,
      by decide +kernel, fun rank next le => ?_, fun negative rank bounded => ?_⟩
    · refine min_le_min_right _ (nearestRank_mono (by omega) (by omega) ?_)
      exact Nat.mul_le_mul_right _ (Nat.mul_le_mul_right _ (units_mono le))
    · rw [div_ofNat negative bounded (by decide) (by decide), place_ofUnits]
  split
  · refine ⟨fun rank => min (nearestRank (units rank * (60 * unitsInOne)) unitsInOne) topRank,
      by decide +kernel, fun rank next le => ?_, fun negative rank bounded => ?_⟩
    · refine min_le_min_right _ (nearestRank_mono positive positive ?_)
      exact Nat.mul_le_mul_right _ (Nat.mul_le_mul_right _ (units_mono le))
    · rw [mul_ofNat negative bounded (by decide) (by decide), place_ofUnits]
  · exact ⟨id, rfl, monotone_id, fun negative _ bounded => place_finite negative bounded⟩

theorem inSeconds_mono {amount more : Binary64} (finite : amount.isFinite = true)
    (finite' : more.isFinite = true) (le : amount.le more = true) (unit : String) :
    (inSeconds amount unit).le (inSeconds more unit) = true := by
  obtain ⟨f, zero, mono, place⟩ := place_inSeconds unit
  cases amount with
  | infinity | nan => cases finite
  | finite negative rank bounded =>
  cases more with
  | infinity | nan => cases finite'
  | finite other next bounded' =>
    rw [le_iff (place negative bounded) (place other bounded')]
    exact signed_mono zero mono ((le_iff rfl rfl).1 le)

/-- The rank of `2 ^ 64`, which no number of seconds in a length of time exceeds. -/
def longestRank : Nat := 1087 * binade

theorem toSeconds_finite {span : Duration} (le : span.nanoseconds ≤ longest.nanoseconds) :
    ∃ rank h, toSeconds span = .finite false rank h := by
  have whole : span.nanoseconds / perSecond * unitsInOne ≤ units longestRank := by
    have seconds : span.nanoseconds / perSecond ≤ 1 <<< 64 :=
      Nat.le_trans (Nat.div_le_div_right le) (by decide)
    exact Nat.le_trans (Nat.mul_le_mul_right _ seconds) (by decide +kernel)
  have part : span.nanoseconds % perSecond * unitsInOne ≤ units (wholeRank perSecond) := by
    rw [units_wholeRank (by decide) (by decide)]
    exact Nat.mul_le_mul_right _ (Nat.le_of_lt (Nat.mod_lt _ (by decide)))
  obtain ⟨r, hr, few, seconds⟩ := ofNat_of_le whole (by decide)
  obtain ⟨q, hq, less, nanoseconds⟩ := ofNat_of_le part (by decide)
  obtain ⟨p, hp, small, fraction⟩ :=
    div_ofNat_finite false hq (n := perSecond) (by decide) (by decide)
  have sum : units r + units p ≤ units (longestRank + binade) * 1 :=
    Nat.le_trans (Nat.add_le_add (units_mono few) (units_mono (Nat.le_trans small less)))
      (by decide +kernel)
  obtain ⟨rank, h, _, total⟩ := ofUnits_of_le Nat.one_pos sum (by decide) false
  exact ⟨rank, h, by rw [toSeconds, seconds, nanoseconds, fraction, add_of_nonnegative, total]⟩

theorem nanoseconds_ofSeconds {rank : Nat} (bounded : rank < topRank) :
    (ofSeconds (.finite false rank bounded)).nanoseconds =
      min (nearestQuotient (units rank * perSecond) unitsInOne) longest.nanoseconds := by
  have last : longest.nanoseconds + 1 = (1 <<< 64) * perSecond := by decide
  simp only [ofSeconds]
  generalize nearestQuotient (units rank * perSecond) unitsInOne = ns
  by_cases short : ns < (1 <<< 64) * perSecond
  · rw [if_pos short, Nat.min_eq_left (by omega)]
  · rw [if_neg short, Nat.min_eq_right (by omega)]

/-- More seconds are not a shorter time, unless they are infinitely many. -/
theorem ofSeconds_mono {x y : Binary64} (le : x.le y = true) (some_seconds : y ≠ .infinity false) :
    (ofSeconds x).nanoseconds ≤ (ofSeconds y).nanoseconds := by
  have positive : 0 < unitsInOne := by decide
  cases x with
  | nan | infinity => exact Nat.zero_le _
  | finite negative rank bounded =>
  cases negative with
  | true => exact Nat.zero_le _
  | false =>
  cases y with
  | nan => cases le
  | infinity other =>
    cases other with
    | false => exact absurd rfl some_seconds
    | true =>
      have below : (rank : Int) ≤ -(topRank : Int) :=
        (le_iff (place_finite false bounded) rfl).1 le
      omega
  | finite other next bounded' =>
    rw [le_iff (place_finite false bounded) (place_finite other bounded')] at le
    cases other with
    | true =>
      have nothing : (rank : Int) ≤ -(next : Int) := le
      obtain rfl : rank = 0 := by omega
      have none : nearestQuotient (units 0 * perSecond) unitsInOne = 0 := by decide +kernel
      rw [nanoseconds_ofSeconds, none, Nat.zero_min]
      exact Nat.zero_le _
    | false =>
      rw [nanoseconds_ofSeconds, nanoseconds_ofSeconds]
      refine min_le_min_right _ (nearestQuotient_mono positive positive ?_)
      exact Nat.mul_le_mul_right _ (Nat.mul_le_mul_right _ (units_mono (Int.ofNat_le.1 le)))

theorem ofSeconds_le_longest (x : Binary64) : (ofSeconds x).nanoseconds ≤ longest.nanoseconds := by
  cases x with
  | finite negative rank bounded =>
    cases negative with
    | true => exact Nat.zero_le _
    | false =>
      rw [nanoseconds_ofSeconds]
      exact Nat.min_le_right _ _
  | infinity | nan => exact Nat.zero_le _

def ofAmount (amount : Binary64) (unit : String) : Duration := ofSeconds (inSeconds amount unit)

theorem ofAmount_mono {amount more : Binary64} (finite : amount.isFinite = true)
    (finite' : more.isFinite = true) (le : amount.le more = true) {unit : String}
    (few : ¬ (unit ∈ minutes ∧ mostMinutes.lt more = true)) :
    (ofAmount amount unit).nanoseconds ≤ (ofAmount more unit).nanoseconds :=
  ofSeconds_mono (inSeconds_mono finite finite' le unit)
    (mt (inSeconds_eq_infinity_iff finite').1 few)

theorem ofAmount_of_too_many {amount : Binary64} (finite : amount.isFinite = true) {unit : String}
    (many : unit ∈ minutes ∧ mostMinutes.lt amount = true) : ofAmount amount unit = zero := by
  rw [ofAmount, (inSeconds_eq_infinity_iff finite).2 many]
  rfl

/-- From `2 ^ 64` seconds on, any finite number of them is the longest time. -/
theorem ofSeconds_of_le {x : Binary64} (finite : x.isFinite = true)
    (large : (Binary64.ofNat (1 <<< 64)).le x = true) : ofSeconds x = longest := by
  have bound : ofSeconds (.ofNat (1 <<< 64)) = longest := by decide +kernel
  have least := ofSeconds_mono large (by rintro rfl; cases finite)
  rw [bound] at least
  have same := Nat.le_antisymm (ofSeconds_le_longest x) least
  exact congrArg Duration.mk same

end Duration
end MacroGraph
