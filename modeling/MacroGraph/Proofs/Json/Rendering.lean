import MacroGraph.Proofs.Json.Scan
import MacroGraph.Proofs.Json.Value

namespace MacroGraph.Json
open MacroGraph.Json.Tree

section Digits

theorem digits_digitsOf (n : Nat) : Digits (digitsOf n) :=
  ⟨digitsOf_ne_nil n, fun _ => isDigit_of_mem_digitsOf⟩

theorem digitsOf_injective {m n : Nat} (h : digitsOf m = digitsOf n) : m = n := by
  rw [← ofDigitChars_digitsOf m, h, ofDigitChars_digitsOf n]

theorem whole_digitsOf (n : Nat) : Whole (digitsOf n) := by
  refine ⟨digits_digitsOf n, ?_⟩
  induction n using Nat.strongRecOn with
  | ind n ih =>
    by_cases small : n < 10
    · rw [digitsOf, Nat.toDigits_of_lt_base small]
      simp
    · have split : digitsOf n = digitsOf (n / 10) ++ [(n % 10).digitChar] :=
        Nat.toDigits_of_base_le (by decide) (by omega)
      intro front
      have front' : (digitsOf (n / 10)).head? = some '0' := by
        obtain ⟨c, digits, found, -⟩ := (digits_digitsOf (n / 10)).head
        simpa [split, found] using front
      have none : n / 10 = 0 := digitsOf_injective (ih (n / 10) (by omega) front')
      omega

theorem spelling_integer (negative : Bool) (n : Nat) :
    Spelling (.number ⟨negative, digitsOf n, none, none⟩)
      ((if negative then ['-'] else []) ++ digitsOf n) :=
  .number ⟨[], [], whole_digitsOf n, rfl, rfl, by simp⟩

end Digits

section Strings

theorem control_digits : ∀ n < 32, ∃ a ∈ hexDigitValues, ∃ b ∈ hexDigitValues,
    (if n < 16 then ['0'] else []) ++ Nat.toDigits 16 n = [a.1, b.1] ∧ a.2 * 16 + b.2 = n := by
  decide

theorem escapedChar_short :
    ∀ p ∈ shortEscapes, p.1 ≠ '/' → escapedChar p.2 = ['\\', p.1] := by
  decide

theorem escapedChar_cases (c : Char) :
    (∃ p ∈ shortEscapes, p.2 = c ∧ escapedChar c = ['\\', p.1]) ∨
    (∃ a ∈ hexDigitValues, ∃ b ∈ hexDigitValues, a.2 * 16 + b.2 = c.toNat ∧ c.toNat < 32 ∧
      escapedChar c = ['\\', 'u', '0', '0', a.1, b.1]) ∨
    32 ≤ c.toNat ∧ c ≠ '"' ∧ c ≠ '\\' ∧ escapedChar c = [c] := by
  by_cases named : ∃ p ∈ shortEscapes, p.1 ≠ '/' ∧ p.2 = c
  · obtain ⟨p, hp, noSlash, rfl⟩ := named
    exact .inl ⟨p, hp, rfl, escapedChar_short p hp noSlash⟩
  · have other : ∀ p ∈ shortEscapes, p.1 ≠ '/' → c ≠ p.2 :=
      fun p hp noSlash h => named ⟨p, hp, noSlash, h.symm⟩
    obtain ⟨noQuote, noBackslash, plain⟩ : c ≠ '"' ∧ c ≠ '\\' ∧ c ≠ Char.ofNat 8 ∧
        c ≠ Char.ofNat 12 ∧ c ≠ '\n' ∧ c ≠ '\r' ∧ c ≠ '\t' := by
      simpa [shortEscapes] using other
    by_cases low : c.toNat < 32
    · obtain ⟨a, ha, b, hb, written, value⟩ := control_digits c.toNat low
      refine .inr (.inl ⟨a, ha, b, hb, value, low, ?_⟩)
      simp [escapedChar, noQuote, noBackslash, plain, low, written]
    · refine .inr (.inr ⟨by omega, noQuote, noBackslash, ?_⟩)
      simp [escapedChar, noQuote, noBackslash, plain, low]

theorem exists_unit (c : Char) : ∃ u,
    (∀ us cs, UnitsSpelling us cs → UnitsSpelling (u :: us) (escapedChar c ++ cs)) ∧
    ∀ us chars, Encodes us chars → Encodes (u :: us) (c :: chars) := by
  rcases escapedChar_cases c with ⟨p, hp, rfl, written⟩ | ⟨a, ha, b, hb, value, low, written⟩ |
    ⟨high, noQuote, noBackslash, written⟩
  · exact ⟨_, fun us cs h => by rw [written]; exact .short hp h, fun us chars h => .char h⟩
  · have zero : ('0', 0) ∈ hexDigitValues := by decide
    refine ⟨_, fun us cs h => by rw [written]; exact .hex zero zero ha hb h, fun us chars h => ?_⟩
    have single : ¬IsSurrogate c.toNat := fun high => by have := high.1; omega
    simpa [value] using Encodes.unit single h
  · exact ⟨_, fun us cs h => by rw [written]; exact .plain high noQuote noBackslash h,
      fun us chars h => .char h⟩

theorem exists_units (chars : List Char) :
    ∃ us, UnitsSpelling us (chars.flatMap escapedChar) ∧ Encodes us chars := by
  induction chars with
  | nil => exact ⟨[], .nil, .nil⟩
  | cons c chars ih =>
    obtain ⟨us, spelled, encoded⟩ := ih
    obtain ⟨u, front, meaning⟩ := exists_unit c
    exact ⟨u :: us, front us _ spelled, meaning us _ encoded⟩

theorem spelling_escaped (s : String) : StringSpelling (some s) (escaped s).toList := by
  obtain ⟨us, spelled, encoded⟩ := exists_units s.toList
  exact ⟨us, _, spelled, encoded, by simp [escaped]⟩

end Strings

section Values
variable {items : List Json} {fields : List (String × Json)}

/-- A value that is written as it is spelled. -/
def Renders (j : Json) : Prop := ∃ t, j.WrittenAs t ∧ t.Spelling j.render.toList

theorem spaces_nil : Spaces [] := by simp [Spaces]

theorem renders_items (each : ∀ j ∈ items, Renders j) (some : items ≠ []) :
    ∃ ts, ItemsWrittenAs items ts ∧
      ItemsSpelling ts (String.intercalate "," (render.renderItems items)).toList := by
  induction items with
  | nil => exact absurd rfl some
  | cons j rest ih =>
    obtain ⟨t, written, spelled⟩ := each j (by simp)
    match rest with
    | [] =>
      refine ⟨[t], .item written .noItem, ?_⟩
      simpa [render.renderItems] using ItemsSpelling.lastItem spelled spaces_nil
    | next :: rest =>
      obtain ⟨ts, more, spelledMore⟩ :=
        ih (fun j hj => each j (List.mem_cons_of_mem _ hj)) (by simp)
      refine ⟨t :: ts, .item written more, ?_⟩
      simpa [render.renderItems, String.intercalate_cons_cons] using
        ItemsSpelling.item spelled spaces_nil spaces_nil spelledMore

theorem renders_fields (each : ∀ f ∈ fields, Renders f.2) (some : fields ≠ []) :
    ∃ members, FieldsWrittenAs fields members ∧
      MembersSpelling members (String.intercalate "," (render.renderFields fields)).toList := by
  induction fields with
  | nil => exact absurd rfl some
  | cons f rest ih =>
    obtain ⟨name, j⟩ := f
    obtain ⟨t, written, spelled⟩ := each (name, j) (by simp)
    have key := spelling_escaped name
    match rest with
    | [] =>
      refine ⟨[(name, t)], .field name written .noField, ?_⟩
      simpa [render.renderFields] using
        MembersSpelling.lastMember key spaces_nil spaces_nil spelled spaces_nil
    | next :: rest =>
      obtain ⟨ts, more, spelledMore⟩ :=
        ih (fun f hf => each f (List.mem_cons_of_mem _ hf)) (by simp)
      refine ⟨(name, t) :: ts, .field name written more, ?_⟩
      simpa [render.renderFields, String.intercalate_cons_cons] using
        MembersSpelling.member key spaces_nil spaces_nil spelled spaces_nil spaces_nil spelledMore

theorem renders_array (each : ∀ j ∈ items, Renders j) : Renders (.array items) := by
  match items with
  | [] =>
    refine ⟨_, .array .noItem, ?_⟩
    simpa [render, render.renderItems] using Spelling.noItems spaces_nil
  | j :: rest =>
    obtain ⟨ts, written, spelled⟩ := renders_items each (by simp)
    refine ⟨_, .array written, ?_⟩
    simpa [render] using Spelling.array spaces_nil spelled

theorem renders_object (each : ∀ f ∈ fields, Renders f.2) : Renders (.object fields) := by
  match fields with
  | [] =>
    refine ⟨_, .object .noField, ?_⟩
    simpa [render, render.renderFields] using Spelling.noMembers spaces_nil
  | f :: rest =>
    obtain ⟨ms, written, spelled⟩ := renders_fields each (by simp)
    refine ⟨_, .object written, ?_⟩
    simpa [render] using Spelling.object spaces_nil spelled

theorem renders_text (s : String) : Renders (.text s) :=
  ⟨_, .text s, .text (spelling_escaped s)⟩

/-- The text of a value that fits spells the tree that writes the value. -/
theorem Fits.renders {depth : Nat} {j : Json} (fits : Fits depth j) : Renders j := by
  induction fits with
  | null => exact ⟨_, .null, .nullWord⟩
  | bool b =>
    cases b with
    | true => exact ⟨_, .bool true, .trueWord⟩
    | false => exact ⟨_, .bool false, .falseWord⟩
  | @natural _ n _ =>
    exact ⟨_, .natural n, by simpa [render, Number.text] using spelling_integer false n⟩
  | @negative _ k _ _ =>
    exact ⟨_, .negative k, by simpa [render, Number.text] using spelling_integer true k.natAbs⟩
  | text s => exact renders_text s
  | array _ each => exact renders_array each
  | object _ _ each => exact renders_object each

end Values

end MacroGraph.Json
