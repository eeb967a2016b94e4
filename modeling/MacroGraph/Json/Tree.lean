import MacroGraph.Json.Number

/-!
Trees of JSON text. A tree keeps what was written: numbers as numerals, strings with
whether their escapes make text. Where the text stops being JSON the tree ends in a
`broken` leaf or an unclosed list, and what comes before is still there, so that a reader
of a tree meets the problems of a text in their order.
-/
namespace MacroGraph.Json

inductive Tree where
  | null
  | bool (b : Bool)
  | number (n : Numeral)
  | text (s : Option String)
  | array (items : List Tree) (closed : Bool)
  | object (members : List (Option String × Tree)) (closed : Bool)
  | broken
  deriving Repr, Inhabited

namespace Tree

def isSpace (c : Char) : Bool := c = ' ' || c = '\t' || c = '\n' || c = '\r'

def skipSpace (cs : List Char) : List Char := cs.dropWhile isSpace

/-- A character of a string, or a code unit that an escape names by number. -/
inductive Unit16 where
  | char (c : Char)
  | unit (n : Nat)
  deriving DecidableEq, Repr

def hexValue? (c : Char) : Option Nat :=
  if c.isDigit then some (c.toNat - 48)
  else if 'a'.toNat ≤ c.toNat && c.toNat ≤ 'f'.toNat then some (c.toNat - 87)
  else if 'A'.toNat ≤ c.toNat && c.toNat ≤ 'F'.toNat then some (c.toNat - 55)
  else none

def codeUnit? (a b c d : Char) : Option Nat :=
  match hexValue? a, hexValue? b, hexValue? c, hexValue? d with
  | some a, some b, some c, some d => some (((a * 16 + b) * 16 + c) * 16 + d)
  | _, _, _, _ => none

def shortEscape? (c : Char) : Option Char :=
  if c = '"' || c = '\\' || c = '/' then some c
  else if c = 'b' then some (Char.ofNat 8)
  else if c = 'f' then some (Char.ofNat 12)
  else if c = 'n' then some '\n'
  else if c = 'r' then some '\r'
  else if c = 't' then some '\t'
  else none

/-- The characters of a string after its opening quote, and the text after its closing
one. -/
def scanString : List Char → Option (List Unit16 × List Char)
  | [] => none
  | '"' :: rest => some ([], rest)
  | '\\' :: 'u' :: a :: b :: c :: d :: rest =>
    match codeUnit? a b c d with
    | none => none
    | some n => (scanString rest).map fun (units, rest) => (.unit n :: units, rest)
  | '\\' :: c :: rest =>
    match shortEscape? c with
    | none => none
    | some e => (scanString rest).map fun (units, rest) => (.char e :: units, rest)
  | c :: rest =>
    if c.toNat < 32 || c = '\\' then none
    else (scanString rest).map fun (units, rest) => (.char c :: units, rest)

/-- Joins surrogate pairs; none when a surrogate stands alone. -/
def joinUnits : List Unit16 → Option (List Char)
  | [] => some []
  | .char c :: rest => (joinUnits rest).map (c :: ·)
  | .unit n :: .unit m :: rest =>
    if 0xD800 ≤ n && n < 0xDC00 && 0xDC00 ≤ m && m < 0xE000 then
      (joinUnits rest).map (Char.ofNat (0x10000 + (n - 0xD800) * 0x400 + (m - 0xDC00)) :: ·)
    else if 0xD800 ≤ n && n < 0xE000 then none
    else (joinUnits (.unit m :: rest)).map (Char.ofNat n :: ·)
  | .unit n :: rest =>
    if 0xD800 ≤ n && n < 0xE000 then none else (joinUnits rest).map (Char.ofNat n :: ·)

def textOf (units : List Unit16) : Option String := (joinUnits units).map String.ofList

def scanDigits (cs : List Char) : Option (List Char × List Char) :=
  match cs.takeWhile Char.isDigit with
  | [] => none
  | digits => some (digits, cs.dropWhile Char.isDigit)

/-- The digits before the point. Only a single digit may be zero. -/
def scanWhole (cs : List Char) : Option (List Char × List Char) :=
  match scanDigits cs with
  | some ('0' :: _ :: _, _) => none
  | found => found

def scanFraction (cs : List Char) : Option (Option (List Char) × List Char) :=
  match cs with
  | '.' :: rest => (scanDigits rest).map fun (digits, rest) => (some digits, rest)
  | rest => some (none, rest)

def scanExponent (cs : List Char) : Option (Option (Bool × List Char) × List Char) :=
  match cs with
  | c :: rest =>
    if c = 'e' || c = 'E' then
      let (below, rest) := match rest with
        | '+' :: rest => (false, rest)
        | '-' :: rest => (true, rest)
        | rest => (false, rest)
      (scanDigits rest).map fun (digits, rest) => (some (below, digits), rest)
    else some (none, c :: rest)
  | [] => some (none, [])

def scanNumeral (cs : List Char) : Option (Numeral × List Char) :=
  let (negative, cs) := match cs with
    | '-' :: rest => (true, rest)
    | rest => (false, rest)
  match scanWhole cs with
  | none => none
  | some (whole, cs) =>
    match scanFraction cs with
    | none => none
    | some (fraction, cs) =>
      (scanExponent cs).map fun (exponent, cs) => (⟨negative, whole, fraction, exponent⟩, cs)

mutual

/-- The tree at the front of a text, and the text after it unless the tree is cut short.
Each level of `depth` reads at least one character. -/
def scan : Nat → List Char → Tree × Option (List Char)
  | 0, _ => (.broken, none)
  | depth + 1, cs =>
    match skipSpace cs with
    | 'n' :: 'u' :: 'l' :: 'l' :: rest => (.null, some rest)
    | 't' :: 'r' :: 'u' :: 'e' :: rest => (.bool true, some rest)
    | 'f' :: 'a' :: 'l' :: 's' :: 'e' :: rest => (.bool false, some rest)
    | '"' :: rest =>
      match scanString rest with
      | some (units, rest) => (.text (textOf units), some rest)
      | none => (.broken, none)
    | '[' :: rest =>
      match skipSpace rest with
      | ']' :: rest => (.array [] true, some rest)
      | [] => (.array [] false, none)
      | rest =>
        let (items, rest) := scanItems depth rest
        (.array items rest.isSome, rest)
    | '\x7b' :: rest =>
      match skipSpace rest with
      | '\x7d' :: rest => (.object [] true, some rest)
      | rest =>
        let (members, rest) := scanMembers depth rest
        (.object members rest.isSome, rest)
    | cs =>
      match scanNumeral cs with
      | some (n, rest) => (.number n, some rest)
      | none => (.broken, none)

def scanItems : Nat → List Char → List Tree × Option (List Char)
  | 0, _ => ([], none)
  | depth + 1, cs =>
    match scan depth cs with
    | (t, none) => ([t], none)
    | (t, some rest) =>
      match skipSpace rest with
      | ']' :: rest => ([t], some rest)
      | ',' :: rest =>
        match skipSpace rest with
        | ']' :: _ => ([t], none)
        | [] => ([t], none)
        | rest =>
          let (items, rest) := scanItems depth rest
          (t :: items, rest)
      | _ => ([t], none)

def scanMembers : Nat → List Char → List (Option String × Tree) × Option (List Char)
  | 0, _ => ([], none)
  | depth + 1, cs =>
    match cs with
    | '"' :: rest =>
      match scanString rest with
      | none => ([], none)
      | some (units, rest) =>
        match skipSpace rest with
        | ':' :: rest =>
          match scan depth rest with
          | (t, none) => ([(textOf units, t)], none)
          | (t, some rest) =>
            match skipSpace rest with
            | '\x7d' :: rest => ([(textOf units, t)], some rest)
            | ',' :: rest =>
              let (members, rest) := scanMembers depth (skipSpace rest)
              ((textOf units, t) :: members, rest)
            | _ => ([(textOf units, t)], none)
        | _ => ([(textOf units, .broken)], none)
    | _ => ([], none)

end

/-- The tree of a whole text, and whether nothing but white space follows it. -/
def ofText (s : String) : Tree × Bool :=
  let cs := s.toList
  match scan (2 * cs.length + 2) cs with
  | (t, none) => (t, false)
  | (t, some rest) => (t, (skipSpace rest).isEmpty)

/-- Whether no part of a tree is broken. Numbers out of range and strings that are not text
are no breaks. -/
def intact : Tree → Bool
  | array items closed => intactItems items && closed
  | object members closed => intactMembers members && closed
  | broken => false
  | _ => true
where
  intactItems : List Tree → Bool
    | [] => true
    | t :: rest => t.intact && intactItems rest
  intactMembers : List (Option String × Tree) → Bool
    | [] => true
    | (_, t) :: rest => t.intact && intactMembers rest

end Tree
end MacroGraph.Json
