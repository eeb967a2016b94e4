import MacroGraph.Json.Tree

/-!
The grammar of JSON text, as relations between trees and the characters that write them.
-/
namespace MacroGraph.Json.Tree

/-- White space, which may stand around every token. -/
def Spaces (cs : List Char) : Prop := ∀ c ∈ cs, c ∈ [' ', '\t', '\n', '\r']

/-- The characters that stand after a backslash, with those they name. -/
def shortEscapes : List (Char × Char) :=
  [('"', '"'), ('\\', '\\'), ('/', '/'), ('b', Char.ofNat 8), ('f', Char.ofNat 12),
   ('n', '\n'), ('r', '\r'), ('t', '\t')]

def hexDigitValues : List (Char × Nat) :=
  [('0', 0), ('1', 1), ('2', 2), ('3', 3), ('4', 4), ('5', 5), ('6', 6), ('7', 7), ('8', 8),
   ('9', 9), ('a', 10), ('b', 11), ('c', 12), ('d', 13), ('e', 14), ('f', 15), ('A', 10),
   ('B', 11), ('C', 12), ('D', 13), ('E', 14), ('F', 15)]

/-- What stands between the quotes of a string: characters above the controls that are
neither quote nor backslash, and escapes. -/
inductive UnitsSpelling : List Unit16 → List Char → Prop where
  | nil : UnitsSpelling [] []
  | plain {c : Char} {us : List Unit16} {cs : List Char} :
      32 ≤ c.toNat → c ≠ '"' → c ≠ '\\' → UnitsSpelling us cs →
      UnitsSpelling (.char c :: us) (c :: cs)
  | short {p : Char × Char} {us : List Unit16} {cs : List Char} :
      p ∈ shortEscapes → UnitsSpelling us cs →
      UnitsSpelling (.char p.2 :: us) ('\\' :: p.1 :: cs)
  | hex {a b c d : Char × Nat} {us : List Unit16} {cs : List Char} :
      a ∈ hexDigitValues → b ∈ hexDigitValues → c ∈ hexDigitValues → d ∈ hexDigitValues →
      UnitsSpelling us cs →
      UnitsSpelling (.unit (((a.2 * 16 + b.2) * 16 + c.2) * 16 + d.2) :: us)
        ('\\' :: 'u' :: a.1 :: b.1 :: c.1 :: d.1 :: cs)

def IsSurrogate (n : Nat) : Prop := 0xD800 ≤ n ∧ n < 0xE000

/-- The characters of a string. Surrogates count only in pairs, a high one first. -/
inductive Encodes : List Unit16 → List Char → Prop where
  | nil : Encodes [] []
  | char {c : Char} {us : List Unit16} {cs : List Char} :
      Encodes us cs → Encodes (.char c :: us) (c :: cs)
  | unit {n : Nat} {us : List Unit16} {cs : List Char} :
      ¬IsSurrogate n → Encodes us cs → Encodes (.unit n :: us) (Char.ofNat n :: cs)
  | pair {high low : Nat} {us : List Unit16} {cs : List Char} :
      high < 0x400 → low < 0x400 → Encodes us cs →
      Encodes (.unit (0xD800 + high) :: .unit (0xDC00 + low) :: us)
        (Char.ofNat (0x10000 + high * 0x400 + low) :: cs)

/-- The text of a string; none where a surrogate stands alone. -/
def Denotes (us : List Unit16) : Option String → Prop
  | some s => Encodes us s.toList
  | none => ∀ cs, ¬Encodes us cs

def StringSpelling (s : Option String) (cs : List Char) : Prop :=
  ∃ us body, UnitsSpelling us body ∧ Denotes us s ∧ cs = '"' :: (body ++ ['"'])

def Digits (cs : List Char) : Prop := cs ≠ [] ∧ ∀ c ∈ cs, c.isDigit = true

/-- The digits before the point do not begin with a zero unless it is the only one. -/
def Whole (cs : List Char) : Prop := Digits cs ∧ (cs.head? = some '0' → cs = ['0'])

def FractionSpelling : Option (List Char) → List Char → Prop
  | none, cs => cs = []
  | some digits, cs => Digits digits ∧ cs = '.' :: digits

def ExponentSpelling : Option (Bool × List Char) → List Char → Prop
  | none, cs => cs = []
  | some (below, digits), cs =>
    Digits digits ∧ ∃ e ∈ ['e', 'E'], ∃ sign ∈ (if below then [['-']] else [['+'], []]),
      cs = e :: (sign ++ digits)

def NumeralSpelling (n : Numeral) (cs : List Char) : Prop :=
  ∃ fraction exponent, Whole n.whole ∧ FractionSpelling n.fraction fraction ∧
    ExponentSpelling n.exponent exponent ∧
    cs = (if n.negative then ['-'] else []) ++ (n.whole ++ (fraction ++ exponent))

mutual

inductive Spelling : Tree → List Char → Prop where
  | nullWord : Spelling .null ['n', 'u', 'l', 'l']
  | trueWord : Spelling (.bool true) ['t', 'r', 'u', 'e']
  | falseWord : Spelling (.bool false) ['f', 'a', 'l', 's', 'e']
  | number {n : Numeral} {cs : List Char} : NumeralSpelling n cs → Spelling (.number n) cs
  | text {s : Option String} {cs : List Char} : StringSpelling s cs → Spelling (.text s) cs
  | noItems {ws : List Char} : Spaces ws → Spelling (.array [] true) ('[' :: (ws ++ [']']))
  | array {items : List Tree} {ws cs : List Char} :
      Spaces ws → ItemsSpelling items cs →
      Spelling (.array items true) ('[' :: (ws ++ (cs ++ [']'])))
  | noMembers {ws : List Char} :
      Spaces ws → Spelling (.object [] true) ('\x7b' :: (ws ++ ['\x7d']))
  | object {members : List (Option String × Tree)} {ws cs : List Char} :
      Spaces ws → MembersSpelling members cs →
      Spelling (.object members true) ('\x7b' :: (ws ++ (cs ++ ['\x7d'])))

/-- The items of an array, at least one, and the white space after each. -/
inductive ItemsSpelling : List Tree → List Char → Prop where
  | lastItem {t : Tree} {cs ws : List Char} :
      Spelling t cs → Spaces ws → ItemsSpelling [t] (cs ++ ws)
  | item {t : Tree} {items : List Tree} {cs ws gap rest : List Char} :
      Spelling t cs → Spaces ws → Spaces gap → ItemsSpelling items rest →
      ItemsSpelling (t :: items) (cs ++ (ws ++ ',' :: (gap ++ rest)))

/-- The members of an object, at least one, and the white space after each. -/
inductive MembersSpelling : List (Option String × Tree) → List Char → Prop where
  | lastMember {name : Option String} {t : Tree} {key colon gap cs ws : List Char} :
      StringSpelling name key → Spaces colon → Spaces gap → Spelling t cs → Spaces ws →
      MembersSpelling [(name, t)] (key ++ (colon ++ ':' :: (gap ++ (cs ++ ws))))
  | member {name : Option String} {t : Tree} {members : List (Option String × Tree)}
      {key colon gap cs ws next rest : List Char} :
      StringSpelling name key → Spaces colon → Spaces gap → Spelling t cs → Spaces ws →
      Spaces next → MembersSpelling members rest →
      MembersSpelling ((name, t) :: members)
        (key ++ (colon ++ ':' :: (gap ++ (cs ++ (ws ++ ',' :: (next ++ rest))))))

end

/-- A whole text is a value with white space around it. -/
def TextSpelling (t : Tree) (s : String) : Prop :=
  ∃ before cs after, Spaces before ∧ t.Spelling cs ∧ Spaces after ∧
    s.toList = before ++ (cs ++ after)

end MacroGraph.Json.Tree
