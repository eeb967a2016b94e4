import Mathlib.Algebra.BigOperators.Group.List.Basic
import Mathlib.Algebra.Order.Floor.Div
import MacroGraph.Proofs.Engine.Onward

namespace MacroGraph

namespace Timing

/-- What a wait is cut into: whole polling intervals, and then what is left. -/
def slices (t : Timing) (d : Duration) : List Duration :=
  let poll := t.poll.nanoseconds
  List.replicate (d.nanoseconds / poll) t.poll ++
    if d.nanoseconds % poll = 0 then [] else [⟨d.nanoseconds % poll⟩]

theorem slices_zero (t : Timing) : t.slices ⟨0⟩ = [] := by
  simp [slices]

theorem slices_of_ne_zero (t : Timing) {nanoseconds : Nat} (some_left : nanoseconds ≠ 0) :
    t.slices ⟨nanoseconds⟩ = ⟨min nanoseconds t.poll.nanoseconds⟩ ::
      t.slices ⟨nanoseconds - min nanoseconds t.poll.nanoseconds⟩ := by
  have pos := t.poll_pos
  simp only [slices]
  rcases Nat.lt_or_ge nanoseconds t.poll.nanoseconds with short | long
  · rw [Nat.min_eq_left (Nat.le_of_lt short), Nat.sub_self, Nat.div_eq_of_lt short,
      Nat.mod_eq_of_lt short]
    simp [some_left]
  · rw [Nat.min_eq_right long, Nat.mod_eq_sub_mod long, Nat.div_eq_sub_div pos long,
      List.replicate_succ, List.cons_append]

theorem sum_slices (t : Timing) (span : Duration) :
    ((t.slices span).map Duration.nanoseconds).sum = span.nanoseconds := by
  have parts := Nat.div_add_mod' span.nanoseconds t.poll.nanoseconds
  simp only [slices, List.map_append, List.map_replicate, List.sum_append, List.sum_replicate,
    smul_eq_mul]
  split
  · next whole => simpa [whole] using parts
  · simpa using parts

def sleeps (t : Timing) (d : Duration) : List Event :=
  (t.slices d).map fun slice => .action (.sleep slice.toSeconds)

end Timing

namespace Engine.Machine
variable {d : Document} {t : Timing}

/-- With the flag up a wait sleeps slice by slice, and then the run goes on. -/
theorem waits {n : Node} {pause : Pause} (remaining : Duration) {m : Machine}
    (here : m.point = .wait n remaining pause) :
    ∃ k, (onward d t)^[k] m = m.goto (afterWait d n pause) ∧ made d t k m = t.sleeps remaining := by
  obtain ⟨nanoseconds⟩ := remaining
  induction nanoseconds using Nat.strongRecOn generalizing m with
  | ind nanoseconds ih =>
    by_cases spent : nanoseconds = 0
    · subst spent
      refine ⟨1, ?_, ?_⟩
      · simp [onward, demand, here, step, waited]
      · simp [made, event?, demand, here, Timing.sleeps, Timing.slices_zero]
    · have pos := t.poll_pos
      let slice := min nanoseconds t.poll.nanoseconds
      let asking := m.goto (.request n (.sleep (Duration.toSeconds ⟨slice⟩))
        (.wait n ⟨nanoseconds - slice⟩ pause))
      let left := m.goto (.wait n ⟨nanoseconds - slice⟩ pause)
      have asks : m.onward d t = asking := by
        simp [onward, demand, here, step, waited, spent, asking, slice]
      have sleeps : asking.onward d t = left := by
        simp [onward, demand, asking, left, goto, answered]
      have less : nanoseconds - slice < nanoseconds := by omega
      obtain ⟨k, reached, slept⟩ := ih _ less (show left.point = _ from rfl)
      refine ⟨k + 2, ?_, ?_⟩
      · rw [Function.iterate_add_apply, Function.iterate_succ_apply, Function.iterate_one, asks,
          sleeps, reached]
        rfl
      · rw [Nat.add_comm, made_add, Function.iterate_succ_apply, Function.iterate_one, asks, sleeps,
          slept, Timing.sleeps, Timing.sleeps, t.slices_of_ne_zero spent]
        simp [made, event?, demand, here, asks, asking, goto, slice]

end Engine.Machine
end MacroGraph
