import MacroGraph.Graph.Reach

/-!
Cycles of a graph. A descent follows edges from name to name and comes back up when all edges
of a name were followed. An edge that leads back to the path downwards closes a cycle.
-/
namespace MacroGraph

structure Descent where
  roots : List String
  /-- The path down to the current name, innermost first: each name with the ends of its edges
  that are still to be followed. -/
  stack : List (String × List String) := []
  onPath : List String := []
  /-- Names all of whose edges were followed. -/
  finished : List String := []
  /-- A name on the path to which an edge led back. -/
  found : Option String := none
  deriving DecidableEq, Repr

/-- Follows one edge of the current name, or finishes it. Without a current name it starts
from the next root. A name that is finished is not visited again. -/
def Descent.step? (edges : Edges) (s : Descent) : Option Descent :=
  match s.found, s.stack, s.roots with
  | some _, _, _ => none
  | none, [], [] => none
  | none, [], a :: roots =>
    if s.finished.contains a then some { s with roots }
    else some { s with roots, stack := [(a, ends edges a)], onPath := [a] }
  | none, (a, []) :: stack, _ =>
    some { s with stack, onPath := s.onPath.erase a, finished := a :: s.finished }
  | none, (a, b :: rest) :: stack, _ =>
    if s.onPath.contains b then some { s with stack := (a, rest) :: stack, found := some b }
    else if s.finished.contains b then some { s with stack := (a, rest) :: stack }
    else some { s with stack := (b, ends edges b) :: (a, rest) :: stack, onPath := b :: s.onPath }

/-- The search from some roots. A root and an edge each take at most two steps, one down and
one up. -/
def Descent.final (edges : Edges) (roots : List String) : Descent :=
  exhaust (Descent.step? edges) (2 * roots.length + 2 * edges.length) { roots }

/-- A name on a cycle, if there is one that the roots lead to. -/
def cycleName? (edges : Edges) (roots : List String) : Option String :=
  (Descent.final edges roots).found

end MacroGraph
