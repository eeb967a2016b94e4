import Mathlib.Data.List.DropRight
import Mathlib.Data.List.TakeWhile
import MacroGraph.Text.Blank

namespace MacroGraph

theorem exists_trimChars (cs : List Char) :
    ∃ before after, cs = before ++ trimChars cs ++ after ∧ (∀ c ∈ before, isBlank c = true) ∧
      ∀ c ∈ after, isBlank c = true := by
  have front := List.takeWhile_append_dropWhile (p := isBlank) (l := cs)
  have back := List.takeWhile_append_dropWhile (p := isBlank)
    (l := (cs.dropWhile isBlank).reverse)
  refine ⟨cs.takeWhile isBlank, ((cs.dropWhile isBlank).reverse.takeWhile isBlank).reverse, ?_, ?_,
    ?_⟩
  · rw [List.append_assoc, trimChars, ← List.reverse_append, back, List.reverse_reverse, front]
  · exact fun c => List.mem_takeWhile_imp
  · intro c mem
    exact List.mem_takeWhile_imp (List.mem_reverse.1 mem)

theorem trimChars_trimChars (cs : List Char) : trimChars (trimChars cs) = trimChars cs := by
  have front : (trimChars cs).dropWhile isBlank = trimChars cs := by
    obtain ⟨rest, parts⟩ : trimChars cs <+: cs.dropWhile isBlank := List.rdropWhile_prefix isBlank _
    cases kept : trimChars cs with
    | nil => rfl
    | cons c more =>
      have first := List.head?_dropWhile_not isBlank cs
      rw [← parts, kept] at first
      have dark : isBlank c = false := by simpa using first
      simp [dark]
  calc trimChars (trimChars cs)
      = ((trimChars cs).dropWhile isBlank).rdropWhile isBlank := rfl
    _ = (trimChars cs).rdropWhile isBlank := by rw [front]
    _ = trimChars cs := List.rdropWhile_idempotent isBlank (cs.dropWhile isBlank)

theorem trim_trim (s : String) : trim (trim s) = trim s := by
  rw [trim, trim, String.toList_ofList, trimChars_trimChars]

theorem mem_of_mem_trimChars {c : Char} {cs : List Char} (mem : c ∈ trimChars cs) : c ∈ cs := by
  obtain ⟨before, after, parts, -⟩ := exists_trimChars cs
  rw [parts]
  exact List.mem_append_left _ (List.mem_append_right _ mem)

theorem trimChars_of_isBlank {cs : List Char} (blank : ∀ c ∈ cs, isBlank c = true) :
    trimChars cs = [] := by
  rw [trimChars, List.dropWhile_eq_nil_iff.2 blank]
  rfl

theorem trimChars_blank_append {blanks : List Char} (cs : List Char)
    (blank : ∀ c ∈ blanks, isBlank c = true) : trimChars (blanks ++ cs) = trimChars cs := by
  rw [trimChars, List.dropWhile_append_of_pos blank, trimChars]

theorem trimChars_append_blank {blanks : List Char} (cs : List Char)
    (blank : ∀ c ∈ blanks, isBlank c = true) : trimChars (cs ++ blanks) = trimChars cs := by
  have back : ∀ c ∈ blanks.reverse, isBlank c = true := fun c mem => blank c (List.mem_reverse.1 mem)
  unfold trimChars
  rw [List.dropWhile_append]
  split
  · next nothing =>
    rw [List.dropWhile_eq_nil_iff.2 blank, List.isEmpty_iff.1 nothing]
  · rw [List.reverse_append, List.dropWhile_append_of_pos back]

theorem trimChars_append {before after : List Char} (cs : List Char)
    (blank : ∀ c ∈ before, isBlank c = true) (blank' : ∀ c ∈ after, isBlank c = true) :
    trimChars (before ++ cs ++ after) = trimChars cs := by
  rw [trimChars_append_blank _ blank', trimChars_blank_append _ blank]

end MacroGraph
