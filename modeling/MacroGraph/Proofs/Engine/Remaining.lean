import MacroGraph.Proofs.Engine.Halting

namespace MacroGraph.Engine

/-- The events that may still come from a point when the flag is down. -/
def Point.remaining : Point → List Event
  | .begin | .clear => [.notice .cleared, .notice .cleared]
  | .enter n => [.notice (.entered n.id), .notice .cleared]
  | .request _ a _ => [.action a, .notice .cleared]
  | .report _ | .ended _ => []
  | _ => [.notice .cleared]

theorem Point.remaining_of_isInside {p : Point} (inside : p.isInside = true) :
    p.remaining = [.notice .cleared] := by
  cases p with
  | begin | clear | enter _ | request _ _ _ | finish _ | report _ | ended _ => cases inside
  | _ => rfl

theorem Point.remaining_le (p : Point) :
    ∃ lead, lead.length ≤ 1 ∧ p.remaining <+: lead ++ [.notice .cleared] := by
  cases p with
  | begin | clear => exact ⟨[.notice .cleared], Nat.le_refl 1, List.prefix_rfl⟩
  | enter n => exact ⟨[.notice (.entered n.id)], Nat.le_refl 1, List.prefix_rfl⟩
  | request n a next => exact ⟨[.action a], Nat.le_refl 1, List.prefix_rfl⟩
  | report | ended => exact ⟨[], Nat.zero_le 1, List.nil_prefix⟩
  | _ => exact ⟨[], Nat.zero_le 1, List.prefix_rfl⟩

def Point.isOver : Point → Bool
  | .report _ | .ended _ => true
  | _ => false

namespace Machine
variable {d : Document} {t : Timing} {running : Bool} {m after : Machine} {notes : List Note}

theorem Executes.not_over {n : Node} {p : Point} (executes : Executes n p) : p.isOver = false := by
  cases executes <;> rfl

theorem Moves.not_over (moves : Moves d t running m after notes) (going : m.point.isOver = false) :
    after.point.isOver = false := by
  cases moves with
  | executes n =>
    rw [(executed_eq d m n).1]
    exact (executes_execution d m.outputs n).not_over
  | wakes _ _ pause => cases pause <;> rfl
  | ends fault here =>
    rw [here] at going
    cases going
  | _ => rfl

theorem Moves.remaining_eq (moves : Moves d t false m after notes)
    (going : m.point.isOver = false) : after.point.remaining = m.point.remaining := by
  cases moves with
  | begins here | unrooted here | roots _ here | stops _ here | skips _ here | completes _ _ _ here
  | quits _ _ here | leaves _ _ here | resumesLoop _ _ _ _ here | resumesWhile _ _ _ here
  | finishes here => rw [here]; rfl
  | wakes _ _ pause here =>
    rw [here]
    cases pause <;> rfl
  | ends fault here =>
    rw [here] at going
    cases going
  | takes _ _ _ up | executes _ _ up | iterates _ _ _ _ _ up | iteratesEmpty _ _ _ _ up
  | checks _ _ _ _ up | checksEmpty _ _ _ up | refuses _ _ _ up | sleeps _ _ _ _ up
  | follows _ _ _ _ up | pauses _ _ _ _ up => cases up

theorem remaining_notified {n : Notice} (demand : m.demand = .notify n) :
    m.point.remaining = .notice n :: m.notified.1.point.remaining ∧
      (m.notified.1.point.isOver = true → n = .cleared) := by
  rcases notified_cases demand with
    ⟨here, rfl, goes⟩ | ⟨n, here, rfl, goes⟩ | ⟨fault, here, rfl, goes⟩ <;> rw [here, goes]
  · exact ⟨rfl, fun _ => rfl⟩
  · exact ⟨rfl, fun finished => by cases finished⟩
  · exact ⟨rfl, fun _ => rfl⟩

/-- Whatever the answer to a request, the run has nothing left but to clear the highlights. -/
theorem remaining_answered {a : Action} (demand : m.demand = .act a) (resumes : m.Resumes)
    (answer : Except ActionError Unit) :
    m.point.remaining = [.action a, .notice .cleared] ∧
      (m.answered answer).point.remaining = [.notice .cleared] ∧
      (m.answered answer).point.isOver = false := by
  unfold Machine.demand at demand
  unfold Machine.answered
  cases here : m.point with
  | request n a' next =>
    rw [here] at demand
    cases demand
    have inside := resumes n a next here
    cases answer with
    | error cause => exact ⟨rfl, rfl, rfl⟩
    | ok _ =>
      refine ⟨rfl, Point.remaining_of_isInside inside, ?_⟩
      cases next with
      | report _ | ended _ => cases inside
      | _ => rfl
  | _ => simp [here] at demand

theorem Resumes.goto {p : Point} (other : ∀ n a next, p ≠ .request n a next) (m : Machine) :
    (m.goto p).Resumes :=
  fun n a next requested => absurd requested (other n a next)

end Machine
end MacroGraph.Engine
