import MacroGraph.Proofs.Json.Grammar

namespace MacroGraph.Json.Tree

section Spaces
variable {c : Char} {ws cs rest : List Char}

theorem isSpace_iff : isSpace c = true ↔ c ∈ [' ', '\t', '\n', '\r'] := by
  simp [isSpace, or_assoc]

theorem skipSpace_append (h : Spaces ws) : skipSpace (ws ++ rest) = skipSpace rest := by
  have all : ∀ c ∈ ws, isSpace c = true := fun c hc => isSpace_iff.2 (h c hc)
  exact List.dropWhile_append_of_pos all

theorem skipSpace_cons (h : isSpace c = false) : skipSpace (c :: rest) = c :: rest := by
  simp [skipSpace, h]

theorem skipSpace_eq_nil (h : Spaces ws) : skipSpace ws = [] := by
  rw [← List.append_nil ws, skipSpace_append h]
  rfl

theorem scan_spaces (fuel : Nat) (h : Spaces ws) : scan fuel (ws ++ rest) = scan fuel rest := by
  cases fuel with
  | zero => rfl
  | succ fuel => simp only [scan, skipSpace_append h]

end Spaces

section Strings

theorem shortEscape?_of_mem : ∀ p ∈ shortEscapes, p.1 ≠ 'u' ∧ shortEscape? p.1 = some p.2 := by
  decide

theorem hexValue?_of_mem : ∀ p ∈ hexDigitValues, hexValue? p.1 = some p.2 := by decide

theorem scanString_append {us : List Unit16} {cs : List Char} (h : UnitsSpelling us cs)
    (rest : List Char) : scanString (cs ++ '"' :: rest) = some (us, rest) := by
  induction h with
  | nil => simp [scanString]
  | @plain c us cs above noQuote noBackslash _ ih =>
    have low : ¬c.toNat < 32 := by omega
    rw [List.cons_append, scanString.eq_def]
    simp [*]
  | @short p us cs hp _ ih =>
    obtain ⟨noUnit, named⟩ := shortEscape?_of_mem p hp
    rw [List.cons_append, List.cons_append, scanString.eq_def]
    simp [*]
  | hex ha hb hc hd _ ih =>
    simp [scanString, codeUnit?, hexValue?_of_mem _ ha, hexValue?_of_mem _ hb,
      hexValue?_of_mem _ hc, hexValue?_of_mem _ hd, ih]

theorem isSurrogate_iff {n : Nat} :
    IsSurrogate n ↔ (decide (0xD800 ≤ n) && decide (n < 0xE000)) = true := by
  simp [IsSurrogate]

theorem encodes_of_joinUnits {us : List Unit16} {cs : List Char} (h : joinUnits us = some cs) :
    Encodes us cs := by
  fun_induction joinUnits us generalizing cs with
  | case1 =>
    cases h
    exact .nil
  | case2 c us ih =>
    obtain ⟨cs, read, rfl⟩ := Option.map_eq_some_iff.1 h
    exact .char (ih read)
  | case3 n m us pair ih =>
    obtain ⟨cs, read, rfl⟩ := Option.map_eq_some_iff.1 h
    simp only [Bool.and_eq_true, decide_eq_true_eq] at pair
    obtain ⟨high, rfl⟩ : ∃ high, n = 0xD800 + high := ⟨n - 0xD800, by omega⟩
    obtain ⟨low, rfl⟩ : ∃ low, m = 0xDC00 + low := ⟨m - 0xDC00, by omega⟩
    simpa only [Nat.add_sub_cancel_left] using Encodes.pair (by omega) (by omega) (ih read)
  | case4 => cases h
  | case5 n m us _ single ih =>
    obtain ⟨cs, read, rfl⟩ := Option.map_eq_some_iff.1 h
    exact .unit (mt isSurrogate_iff.1 single) (ih read)
  | case6 => cases h
  | case7 n us _ single ih =>
    obtain ⟨cs, read, rfl⟩ := Option.map_eq_some_iff.1 h
    exact .unit (mt isSurrogate_iff.1 single) (ih read)

theorem joinUnits_unit {n : Nat} (single : ¬IsSurrogate n) (us : List Unit16) :
    joinUnits (.unit n :: us) = (joinUnits us).map (Char.ofNat n :: ·) := by
  have alone : ¬(0xD800 ≤ n ∧ n < 0xE000) := single
  have noHigh (m : Nat) : ¬(((0xD800 ≤ n ∧ n < 0xDC00) ∧ 0xDC00 ≤ m) ∧ m < 0xE000) := by omega
  match us with
  | [] | .char c :: us =>
    simp only [joinUnits, Bool.and_eq_true, decide_eq_true_eq, alone, if_false]
  | .unit m :: us =>
    rw [joinUnits]
    simp only [Bool.and_eq_true, decide_eq_true_eq, noHigh, alone, if_false]

theorem joinUnits_of_encodes {us : List Unit16} {cs : List Char} (h : Encodes us cs) :
    joinUnits us = some cs := by
  induction h with
  | nil => rfl
  | char _ ih => simp [joinUnits, ih]
  | unit single _ ih => simp [joinUnits_unit single, ih]
  | @pair high low us cs hh hl _ ih =>
    have both : 0xD800 + high < 0xDC00 ∧ 0xDC00 + low < 0xE000 := by omega
    simp [joinUnits, ih, both]

theorem textOf_eq {us : List Unit16} {s : Option String} (h : Denotes us s) : textOf us = s := by
  cases s with
  | some s => simp [textOf, joinUnits_of_encodes h]
  | none =>
    cases read : joinUnits us with
    | none => simp [textOf, read]
    | some cs => exact absurd (encodes_of_joinUnits read) (h cs)

theorem StringSpelling.scan {s : Option String} {cs : List Char} (h : StringSpelling s cs) :
    ∃ us body, cs = '"' :: body ∧ textOf us = s ∧
      ∀ rest, scanString (body ++ rest) = some (us, rest) := by
  obtain ⟨us, body, spelled, meaning, rfl⟩ := h
  refine ⟨us, body ++ ['"'], rfl, textOf_eq meaning, fun rest => ?_⟩
  simpa using scanString_append spelled rest

end Strings

section Numerals
variable {cs rest : List Char}

/-- What may follow a value. None of it goes on a numeral. -/
def Stops (rest : List Char) : Prop :=
  ∀ c ∈ rest.head?, c ∈ [' ', '\t', '\n', '\r', ',', ']', '\x7d']

theorem Stops.spaces {ws : List Char} (h : Spaces ws) (stops : Stops rest) :
    Stops (ws ++ rest) := by
  cases ws with
  | nil => exact stops
  | cons c ws =>
    intro d hd
    obtain rfl : c = d := by simpa using hd
    exact List.mem_append_left [',', ']', '\x7d'] (h c (by simp))

theorem Stops.head (stops : Stops rest) :
    ∀ c ∈ rest.head?, c.isDigit = false ∧ c ≠ '.' ∧ c ≠ 'e' ∧ c ≠ 'E' := by
  have all : ∀ c ∈ [' ', '\t', '\n', '\r', ',', ']', '\x7d'],
      c.isDigit = false ∧ c ≠ '.' ∧ c ≠ 'e' ∧ c ≠ 'E' := by simp
  exact fun c hc => all c (stops c hc)

theorem scanDigits_append (h : Digits cs) (past : ∀ c ∈ rest.head?, c.isDigit = false) :
    scanDigits (cs ++ rest) = some (cs, rest) := by
  have none : rest.takeWhile Char.isDigit = [] ∧ rest.dropWhile Char.isDigit = rest := by
    cases rest with
    | nil => simp
    | cons c rest => simp [past c (by simp)]
  rw [scanDigits, List.takeWhile_append_of_pos h.2, List.dropWhile_append_of_pos h.2, none.1,
    none.2, List.append_nil]
  obtain ⟨c, digits, rfl⟩ := List.exists_cons_of_ne_nil h.1
  rfl

theorem Digits.head (h : Digits cs) :
    ∃ c digits, cs = c :: digits ∧ c.isDigit = true ∧ c ≠ '+' ∧ c ≠ '-' := by
  obtain ⟨c, digits, rfl⟩ := List.exists_cons_of_ne_nil h.1
  have digit := h.2 c (by simp)
  refine ⟨c, digits, rfl, digit, ?_, ?_⟩ <;>
  · rintro rfl
    simp at digit

theorem scanWhole_append (h : Whole cs) (past : ∀ c ∈ rest.head?, c.isDigit = false) :
    scanWhole (cs ++ rest) = some (cs, rest) := by
  rw [scanWhole, scanDigits_append h.1 past]
  split
  · rename_i d ds _ found
    simp only [Option.some.injEq, Prod.mk.injEq] at found
    have short := h.2 (by rw [found.1]; rfl)
    simp [found.1] at short
  · rfl

theorem scanFraction_append {fraction : Option (List Char)} (h : FractionSpelling fraction cs)
    (past : ∀ c ∈ rest.head?, c.isDigit = false ∧ c ≠ '.') :
    scanFraction (cs ++ rest) = some (fraction, rest) := by
  cases fraction with
  | none =>
    obtain rfl : cs = [] := h
    cases rest with
    | nil => rfl
    | cons c rest =>
      have noPoint := (past c (by simp)).2
      simp [scanFraction, noPoint]
  | some digits =>
    obtain ⟨hd, rfl⟩ := h
    simp [scanFraction, scanDigits_append hd fun c hc => (past c hc).1]

theorem scanExponent_append {exponent : Option (Bool × List Char)}
    (h : ExponentSpelling exponent cs) (stops : Stops rest) :
    scanExponent (cs ++ rest) = some (exponent, rest) := by
  match exponent with
  | none =>
    obtain rfl : cs = [] := h
    cases rest with
    | nil => rfl
    | cons c rest =>
      obtain ⟨-, -, noLower, noUpper⟩ := stops.head c (by simp)
      simp [scanExponent, noLower, noUpper]
  | some (below, digits) =>
    obtain ⟨hd, e, he, sign, hs, rfl⟩ := h
    have read := scanDigits_append hd fun c hc => (stops.head c hc).1
    have mark : e = 'e' ∨ e = 'E' := by simpa using he
    cases below with
    | true =>
      obtain rfl : sign = ['-'] := by simpa using hs
      simp [scanExponent, mark, read]
    | false =>
      obtain rfl | rfl : sign = ['+'] ∨ sign = [] := by simpa using hs
      · simp [scanExponent, mark, read]
      · obtain ⟨c, ds, rfl, -, noPlus, noMinus⟩ := hd.head
        rw [List.cons_append] at read
        simp [scanExponent, mark, noPlus, noMinus, read]

theorem ExponentSpelling.head {exponent : Option (Bool × List Char)}
    (h : ExponentSpelling exponent cs) (stops : Stops rest) :
    ∀ c ∈ (cs ++ rest).head?, c.isDigit = false ∧ c ≠ '.' := by
  match exponent with
  | none =>
    obtain rfl : cs = [] := h
    exact fun c hc => ⟨(stops.head c hc).1, (stops.head c hc).2.1⟩
  | some (below, digits) =>
    obtain ⟨-, e, he, sign, -, rfl⟩ := h
    have marks : ∀ e ∈ ['e', 'E'], e.isDigit = false ∧ e ≠ '.' := by simp
    simpa using marks e he

theorem FractionSpelling.head {fraction : Option (List Char)} (h : FractionSpelling fraction cs)
    (past : ∀ c ∈ rest.head?, c.isDigit = false ∧ c ≠ '.') :
    ∀ c ∈ (cs ++ rest).head?, c.isDigit = false := by
  cases fraction with
  | none =>
    obtain rfl : cs = [] := h
    exact fun c hc => (past c hc).1
  | some digits =>
    obtain ⟨-, rfl⟩ := h
    simp

theorem scanNumeral_append {n : Numeral} (h : NumeralSpelling n cs) (stops : Stops rest) :
    scanNumeral (cs ++ rest) = some (n, rest) := by
  obtain ⟨negative, whole, fraction, exponent⟩ := n
  obtain ⟨fs, es, hw, hf, he, rfl⟩ := h
  have after := he.head stops
  have digits := scanWhole_append hw (hf.head after)
  have point := scanFraction_append hf after
  have scale := scanExponent_append he stops
  cases negative with
  | true => simp [scanNumeral, digits, point, scale]
  | false =>
    obtain ⟨c, ds, rfl, -, -, noMinus⟩ := hw.1.head
    rw [List.cons_append] at digits
    simp [scanNumeral, noMinus, digits, point, scale]

end Numerals

section Trees
variable {t : Tree} {items : List Tree} {members : List (Option String × Tree)}
  {cs ws rest : List Char}

/-- The text is scanned as the tree, whatever may follow. A level for each character is
enough. -/
def Reads (t : Tree) (cs : List Char) : Prop :=
  ∀ fuel rest, Stops rest → cs.length ≤ fuel → scan fuel (cs ++ rest) = (t, some rest)

/-- The text up to the closing bracket is scanned as the items. The list takes a level of its
own. -/
def ReadsItems (items : List Tree) (cs : List Char) : Prop :=
  ∀ fuel rest, cs.length < fuel → scanItems fuel (cs ++ ']' :: rest) = (items, some rest)

def ReadsMembers (members : List (Option String × Tree)) (cs : List Char) : Prop :=
  ∀ fuel rest, cs.length < fuel →
    scanMembers fuel (cs ++ '\x7d' :: rest) = (members, some rest)

theorem Reads.of_succ {c : Char} {tail : List Char}
    (read : ∀ fuel rest, Stops rest → tail.length ≤ fuel →
      scan (fuel + 1) (c :: (tail ++ rest)) = (t, some rest)) : Reads t (c :: tail) := by
  intro fuel rest stops enough
  cases fuel with
  | zero => simp at enough
  | succ fuel => exact read fuel rest stops (Nat.le_of_succ_le_succ enough)

theorem ReadsItems.of_succ (read : ∀ fuel rest, cs.length ≤ fuel →
    scanItems (fuel + 1) (cs ++ ']' :: rest) = (items, some rest)) : ReadsItems items cs := by
  intro fuel rest enough
  cases fuel with
  | zero => simp at enough
  | succ fuel => exact read fuel rest (Nat.le_of_lt_succ enough)

theorem ReadsMembers.of_succ (read : ∀ fuel rest, cs.length ≤ fuel →
    scanMembers (fuel + 1) (cs ++ '\x7d' :: rest) = (members, some rest)) :
    ReadsMembers members cs := by
  intro fuel rest enough
  cases fuel with
  | zero => simp at enough
  | succ fuel => exact read fuel rest (Nat.le_of_lt_succ enough)

theorem NumeralSpelling.head {n : Numeral} (h : NumeralSpelling n cs) :
    ∃ c tail, cs = c :: tail ∧ (c = '-' ∨ c.isDigit = true) := by
  obtain ⟨negative, whole, fraction, exponent⟩ := n
  obtain ⟨fs, es, hw, -, -, rfl⟩ := h
  cases negative with
  | true => exact ⟨'-', _, rfl, .inl rfl⟩
  | false =>
    obtain ⟨c, ds, rfl, digit, -, -⟩ := hw.1.head
    exact ⟨c, _, rfl, .inr digit⟩

theorem not_isSpace_of_isDigit {c : Char} (h : c.isDigit = true) : isSpace c = false := by
  have none : ∀ c ∈ [' ', '\t', '\n', '\r'], c.isDigit = false := by simp
  refine Bool.eq_false_iff.2 fun space => ?_
  simp [none c (isSpace_iff.1 space)] at h

theorem Spelling.head (h : Spelling t cs) :
    ∃ c tail, cs = c :: tail ∧ isSpace c = false ∧ c ≠ ']' := by
  cases h with
  | nullWord | trueWord | falseWord | noItems | array | noMembers | object =>
    exact ⟨_, _, rfl, by decide, by decide⟩
  | text h =>
    obtain ⟨us, body, rfl, -⟩ := h.scan
    exact ⟨_, _, rfl, by decide, by decide⟩
  | number h =>
    obtain ⟨c, tail, rfl, rfl | digit⟩ := h.head
    · exact ⟨_, _, rfl, by decide, by decide⟩
    · refine ⟨c, tail, rfl, not_isSpace_of_isDigit digit, ?_⟩
      rintro rfl
      simp at digit

theorem reads_number {n : Numeral} (h : NumeralSpelling n cs) : Reads (.number n) cs := by
  have read : ∀ rest, Stops rest → scanNumeral (cs ++ rest) = some (n, rest) :=
    fun _ stops => scanNumeral_append h stops
  obtain ⟨c, tail, rfl, front⟩ := h.head
  have noWord : c ∉ ['n', 't', 'f', '"', '[', '\x7b'] := by
    have none : ∀ c ∈ ['n', 't', 'f', '"', '[', '\x7b'], ¬(c = '-' ∨ c.isDigit = true) := by
      simp
    exact fun word => none c word front
  have noSpace : isSpace c = false := by
    rcases front with rfl | digit
    · decide
    · exact not_isSpace_of_isDigit digit
  simp only [List.mem_cons, List.not_mem_nil, not_or] at noWord
  refine .of_succ fun fuel rest stops _ => ?_
  have found := read rest stops
  rw [List.cons_append] at found
  simp [scan, skipSpace_cons noSpace, noWord, found]

theorem reads_string {s : Option String} (h : StringSpelling s cs) : Reads (.text s) cs := by
  obtain ⟨us, body, rfl, rfl, read⟩ := h.scan
  exact .of_succ fun _ _ _ _ => by simp [scan, skipSpace_cons, isSpace, read]

theorem reads_noItems (h : Spaces ws) : Reads (.array [] true) ('[' :: (ws ++ [']'])) :=
  .of_succ fun _ _ _ _ => by simp [scan, skipSpace_cons, isSpace, skipSpace_append h]

theorem reads_noMembers (h : Spaces ws) :
    Reads (.object [] true) ('\x7b' :: (ws ++ ['\x7d'])) :=
  .of_succ fun _ _ _ _ => by simp [scan, skipSpace_cons, isSpace, skipSpace_append h]

theorem ItemsSpelling.head (h : ItemsSpelling items cs) :
    ∃ c tail, cs = c :: tail ∧ isSpace c = false ∧ c ≠ ']' := by
  cases h with
  | lastItem spelled _ | item spelled _ _ _ =>
    obtain ⟨c, tail, rfl, front⟩ := spelled.head
    exact ⟨c, _, rfl, front⟩

theorem MembersSpelling.head (h : MembersSpelling members cs) :
    ∃ tail, cs = '"' :: tail := by
  cases h with
  | lastMember key _ _ _ _ | member key _ _ _ _ _ _ =>
    obtain ⟨us, body, rfl, -⟩ := key.scan
    exact ⟨_, rfl⟩

theorem reads_array (h : Spaces ws) (spelled : ItemsSpelling items cs)
    (read : ReadsItems items cs) : Reads (.array items true) ('[' :: (ws ++ (cs ++ [']']))) := by
  refine .of_succ fun fuel rest _ enough => ?_
  have found := read fuel rest (by simp at enough; omega)
  obtain ⟨c, tail, rfl, noSpace, noClose⟩ := spelled.head
  rw [List.cons_append] at found
  simp [scan, skipSpace_cons, isSpace, skipSpace_append h, skipSpace_cons noSpace, noClose, found]

theorem reads_object (h : Spaces ws) (spelled : MembersSpelling members cs)
    (read : ReadsMembers members cs) :
    Reads (.object members true) ('\x7b' :: (ws ++ (cs ++ ['\x7d']))) := by
  refine .of_succ fun fuel rest _ enough => ?_
  have found := read fuel rest (by simp at enough; omega)
  obtain ⟨tail, rfl⟩ := spelled.head
  rw [List.cons_append] at found
  simp [scan, skipSpace_cons, isSpace, skipSpace_append h, found]

theorem reads_lastItem (read : Reads t cs) (h : Spaces ws) : ReadsItems [t] (cs ++ ws) := by
  refine .of_succ fun fuel rest enough => ?_
  have stops : Stops (']' :: rest) := by simp [Stops]
  have found := read fuel _ (stops.spaces h) (by simp at enough; omega)
  simp [scanItems, found, skipSpace_append h, skipSpace_cons, isSpace]

theorem reads_item {gap more : List Char} (read : Reads t cs) (h : Spaces ws) (hg : Spaces gap)
    (spelled : ItemsSpelling items more) (readMore : ReadsItems items more) :
    ReadsItems (t :: items) (cs ++ (ws ++ ',' :: (gap ++ more))) := by
  refine .of_succ fun fuel rest enough => ?_
  simp only [List.length_cons, List.length_append] at enough
  have stops : Stops (',' :: (gap ++ (more ++ ']' :: rest))) := by simp [Stops]
  have found := read fuel _ (stops.spaces h) (by omega)
  have foundMore := readMore fuel rest (by omega)
  obtain ⟨c, tail, rfl, noSpace, noClose⟩ := spelled.head
  rw [List.cons_append] at foundMore found
  simp [scanItems, found, skipSpace_append h, skipSpace_append hg, skipSpace_cons, isSpace,
    skipSpace_cons noSpace, noClose, foundMore]

theorem reads_lastMember {name : Option String} {key colon gap : List Char}
    (hk : StringSpelling name key) (hc : Spaces colon) (hg : Spaces gap) (read : Reads t cs)
    (h : Spaces ws) :
    ReadsMembers [(name, t)] (key ++ (colon ++ ':' :: (gap ++ (cs ++ ws)))) := by
  refine .of_succ fun fuel rest enough => ?_
  simp only [List.length_cons, List.length_append] at enough
  have stops : Stops ('\x7d' :: rest) := by simp [Stops]
  have found := read fuel _ (stops.spaces h) (by omega)
  obtain ⟨us, body, rfl, rfl, readKey⟩ := hk.scan
  simp [scanMembers, readKey, found, skipSpace_append hc, skipSpace_append h, skipSpace_cons,
    isSpace, scan_spaces _ hg]

theorem reads_member {name : Option String} {key colon gap next more : List Char}
    (hk : StringSpelling name key) (hc : Spaces colon) (hg : Spaces gap) (read : Reads t cs)
    (h : Spaces ws) (hn : Spaces next) (spelled : MembersSpelling members more)
    (readMore : ReadsMembers members more) :
    ReadsMembers ((name, t) :: members)
      (key ++ (colon ++ ':' :: (gap ++ (cs ++ (ws ++ ',' :: (next ++ more)))))) := by
  refine .of_succ fun fuel rest enough => ?_
  simp only [List.length_cons, List.length_append] at enough
  have stops : Stops (',' :: (next ++ (more ++ '\x7d' :: rest))) := by simp [Stops]
  have found := read fuel _ (stops.spaces h) (by omega)
  have foundMore := readMore fuel rest (by omega)
  obtain ⟨us, body, rfl, rfl, readKey⟩ := hk.scan
  obtain ⟨tail, rfl⟩ := spelled.head
  rw [List.cons_append] at foundMore found
  simp [scanMembers, readKey, found, skipSpace_append hc, skipSpace_append h,
    skipSpace_append hn, skipSpace_cons, isSpace, scan_spaces _ hg, foundMore]

/-- Every value of the grammar is read as the tree that it spells. -/
theorem Spelling.reads (h : t.Spelling cs) : Reads t cs := by
  -- One induction over values, items and members: each holds the others.
  induction h using Spelling.rec
    (motive_2 := fun items cs _ => ReadsItems items cs)
    (motive_3 := fun members cs _ => ReadsMembers members cs) with
  | nullWord | trueWord | falseWord => exact .of_succ fun _ _ _ _ => rfl
  | number h => exact reads_number h
  | text h => exact reads_string h
  | noItems h => exact reads_noItems h
  | array h spelled read => exact reads_array h spelled read
  | noMembers h => exact reads_noMembers h
  | object h spelled read => exact reads_object h spelled read
  | lastItem _ h read => exact reads_lastItem read h
  | item _ h hg spelled read readMore => exact reads_item read h hg spelled readMore
  | lastMember hk hc hg _ h read => exact reads_lastMember hk hc hg read h
  | member hk hc hg _ h hn spelled read readMore =>
    exact reads_member hk hc hg read h hn spelled readMore

theorem Spelling.intact (h : t.Spelling cs) : t.intact = true := by
  induction h using Spelling.rec
    (motive_2 := fun items _ _ => intact.intactItems items = true)
    (motive_3 := fun members _ _ => intact.intactMembers members = true) with
  | nullWord | trueWord | falseWord | number _ | text _ | noItems _ | noMembers _ => rfl
  | array _ _ whole | object _ _ whole => simp [Tree.intact, whole]
  | lastItem _ _ whole => simp [intact.intactItems, whole]
  | item _ _ _ _ whole more => simp [intact.intactItems, whole, more]
  | lastMember _ _ _ _ _ whole => simp [intact.intactMembers, whole]
  | member _ _ _ _ _ _ _ whole more => simp [intact.intactMembers, whole, more]

theorem TextSpelling.ofText {s : String} (h : t.TextSpelling s) : Tree.ofText s = (t, true) := by
  obtain ⟨before, cs, after, hb, spelled, ha, written⟩ := h
  have nothing : Stops [] := by simp [Stops]
  have stops : Stops after := by simpa using nothing.spaces ha
  have read := spelled.reads (2 * s.toList.length + 2) after stops
    (by rw [written]; simp; omega)
  rw [← scan_spaces _ hb, ← written] at read
  simp [Tree.ofText, read, skipSpace_eq_nil ha]

end Trees
end MacroGraph.Json.Tree
