import MacroGraph.Engine.Run

namespace MacroGraph.Backend

/-- How the action of a number fails. -/
structure Failure where
  call : Nat
  reply : Engine.Reply
  deriving Repr

/-- What a recorder does by number, counted from one. From `limit` on every entered node
and every action lowers the flag. -/
structure Rules where
  stopAtNode : Option Nat := none
  stopAtCall : Option Nat := none
  limit : Option Nat := none
  failures : List Failure := []
  deriving Repr

structure Recorder where
  rules : Rules
  entered : Nat := 0
  calls : Nat := 0
  deriving Repr

namespace Recorder

def reaches (limit : Option Nat) (n : Nat) : Bool :=
  match limit with
  | none => false
  | some l => decide (l ≤ n)

def host : Engine.Host Recorder := fun r e =>
  match e with
  | .notice .cleared => { world := r }
  | .notice (.entered _) =>
    let n := r.entered + 1
    { world := { r with entered := n }
      lowers := r.rules.stopAtNode == some n || reaches r.rules.limit n }
  | .action _ =>
    let n := r.calls + 1
    { world := { r with calls := n }
      lowers := r.rules.stopAtCall == some n || reaches r.rules.limit n
      reply := ((r.rules.failures.find? fun f => f.call == n).map Failure.reply).getD .done }

end Recorder
end MacroGraph.Backend
