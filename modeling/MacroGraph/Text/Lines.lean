namespace MacroGraph

def printedLines (lines : List (List Char)) : List Char := lines.flatMap (· ++ ['\n'])

/-- A line, last character first, without a carriage return at its end. -/
def endLine : List Char → List Char
  | '\r' :: line => line.reverse
  | line => line.reverse

/-- The lines of a text; `line` is what has been read of the first, last character first. -/
def linesFrom (line : List Char) : List Char → List (List Char)
  | [] => if line.isEmpty then [] else [line.reverse]
  | c :: rest => if c = '\n' then endLine line :: linesFrom [] rest else linesFrom (c :: line) rest

/-- The lines that printing some texts shows, each text on a line of its own. -/
def shownLines (texts : List String) : List String :=
  (linesFrom [] (printedLines (texts.map String.toList))).map String.ofList

end MacroGraph
