import MacroGraph.Connection
import MacroGraph.Proofs.Text.Blank

namespace MacroGraph

theorem toLower_of_isBlank {c : Char} (blank : isBlank c = true) : c.toLower = c := by
  have outside : c.toNat ≤ 32 ∨ 133 ≤ c.toNat := by
    simp only [isBlank, withinRanges, blankRanges, List.any_cons, List.any_nil, Bool.or_eq_true,
      Bool.and_eq_true, decide_eq_true_eq, Bool.or_false] at blank
    omega
  unfold Char.toLower
  split
  · next capital =>
    have low : 65 ≤ c.toNat := UInt32.le_iff_toNat_le.1 capital.1
    have high : c.toNat ≤ 90 := UInt32.le_iff_toNat_le.1 capital.2
    omega
  · rfl

namespace Flow

def word : Flow → List Char
  | .exec => ['e', 'x', 'e', 'c']
  | .data => ['d', 'a', 't', 'a']

/-- A text holds the word of a flow, in letters of either case, and blanks around it. -/
def Spells (flow : Flow) (text : String) : Prop :=
  ∃ before spelling after, text.toList = before ++ spelling ++ after ∧
    (∀ c ∈ before, isBlank c = true) ∧ (∀ c ∈ after, isBlank c = true) ∧
      spelling.map Char.toLower = flow.word

theorem isBlank_of_mem_word {flow : Flow} {c : Char} (mem : c ∈ flow.word) : isBlank c = false := by
  cases flow <;> simp only [word, List.mem_cons, List.not_mem_nil, or_false] at mem <;>
    rcases mem with rfl | rfl | rfl | rfl <;> decide

theorem ofName?_eq_word (name : String) : ofName? name =
    if (trimChars name.toList).map Char.toLower = word .exec then some .exec
    else if (trimChars name.toList).map Char.toLower = word .data then some .data
    else none := by
  have plain : lowerAscii (trim name) = String.ofList ((trimChars name.toList).map Char.toLower) := by
    rw [lowerAscii, trim, String.toList_ofList]
  have exec : "exec" = String.ofList (word .exec) := rfl
  have data : "data" = String.ofList (word .data) := rfl
  simp only [ofName?, plain, exec, data, String.ofList_inj]

theorem ofName?_eq_some_iff {name : String} {flow : Flow} :
    ofName? name = some flow ↔ flow.Spells name := by
  have read : ofName? name = some flow ↔ (trimChars name.toList).map Char.toLower = flow.word := by
    rw [ofName?_eq_word]
    constructor
    · intro found
      split at found
      · next spelled =>
        cases found
        exact spelled
      · split at found
        · next spelled =>
          cases found
          exact spelled
        · cases found
    · intro spelled
      cases flow <;> simp [spelled, word]
  rw [read]
  constructor
  · intro spelled
    obtain ⟨before, after, parts, blank, blank'⟩ := exists_trimChars name.toList
    exact ⟨before, _, after, parts, blank, blank', spelled⟩
  · rintro ⟨before, spelling, after, parts, blank, blank', spelled⟩
    have solid : ∀ c ∈ spelling, isBlank c = false := by
      intro c mem
      have lower : c.toLower ∈ flow.word := spelled ▸ List.mem_map_of_mem mem
      rw [← Bool.not_eq_true]
      intro blank
      rw [toLower_of_isBlank blank] at lower
      cases blank.symm.trans (isBlank_of_mem_word lower)
    rw [parts, trimChars_append _ blank blank', trimChars_eq_self _ solid, spelled]

example : Flow.ofName? " \tEXec\n" = some .exec := by decide

end Flow
end MacroGraph
