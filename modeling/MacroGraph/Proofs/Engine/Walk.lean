import MacroGraph.Proofs.Engine.Revisiting

namespace MacroGraph.Engine.Machine
variable {d : Document} {t : Timing}

/-- A machine that is about to walk from an id and will do nothing else. -/
def walking (id : String) (o : Outputs) : Machine := { point := .arrive id, outputs := o }

/-- A walk from an id under what is published comes to its end, and has made these events. -/
def WalkFrom (d : Document) (t : Timing) (id : String) (o : Outputs) (events : List Event) : Prop :=
  ∃ k, ((onward d t)^[k] (walking id o)).Returns [] ∧
    (∀ j < k, ¬ ((onward d t)^[j] (walking id o)).Returns []) ∧ made d t k (walking id o) = events

theorem WalkFrom.unique {id : String} {o : Outputs} {events other : List Event}
    (walk : WalkFrom d t id o events) (again : WalkFrom d t id o other) : events = other := by
  obtain ⟨k, returns, under, rfl⟩ := walk
  obtain ⟨j, returns', under', rfl⟩ := again
  rcases Nat.lt_trichotomy k j with lt | rfl | lt
  · exact absurd returns (under' k lt)
  · rfl
  · exact absurd returns' (under j lt)

/-- The same machine above some frames, after some nodes were entered, in a macro that starts again
or not. -/
def lifted (m : Machine) (base : List Frame) (count : Nat) (again : Bool) : Machine :=
  { m with stack := m.stack ++ base, entered := m.entered + count, repeats := again }

theorem lifted_walking (id : String) (o : Outputs) (base : List Frame) (count : Nat)
    (again : Bool) : (walking id o).lifted base count again =
      { point := .arrive id, stack := base, outputs := o, entered := count, repeats := again } := by
  simp [lifted, walking]

section
variable {base : List Frame} {count : Nat} {again : Bool}

/-- What a machine is part of matters only at the end of its walk. -/
theorem onward_lifted {m : Machine} (opened : m.point.isOpening = false)
    (under : ¬ m.Returns []) :
    (m.lifted base count again).onward d t = (m.onward d t).lifted base count again := by
  have demand : (m.lifted base count again).demand = m.demand := rfl
  unfold onward
  rw [demand]
  obtain ⟨point, stack, outputs, entered, repeats⟩ := m
  cases point with
  | begin | clear | root => cases opened
  | arrive id | leave n pin =>
    simp only [Machine.demand, step, lifted]
    split <;> rfl
  | enter n => simp only [Machine.demand, notified, lifted, Nat.add_right_comm]
  | execute n =>
    simp only [Machine.demand, step, lifted, if_true, executed, withdrawn]
    split <;> rfl
  | iterate n next total =>
    simp only [Machine.demand, step, lifted, iterated, body]
    split
    · split <;> rfl
    · rfl
  | check n next =>
    by_cases holds : Evaluation.boolean d outputs n "Condition" false = true
    · simp only [Machine.demand, step, lifted, checked, body, holds, if_true]
      split <;> rfl
    · simp only [Machine.demand, step, lifted, checked, holds, if_true]
      rfl
  | wait n remaining pause =>
    simp only [Machine.demand, step, lifted, waited]
    split <;> rfl
  | walked =>
    cases stack with
    | nil => exact absurd ⟨rfl, rfl⟩ under
    | cons f rest => cases f <;> rfl
  | _ => rfl

theorem iterate_lifted (valid : d.Valid) {m : Machine} (fits : (m.lifted base count again).Fits d)
    (opened : m.point.isOpening = false) {k : Nat}
    (under : ∀ j < k, ¬ ((onward d t)^[j] m).Returns []) :
    (onward d t)^[k] (m.lifted base count again) =
        ((onward d t)^[k] m).lifted base count again ∧
      made d t k (m.lifted base count again) = made d t k m := by
  induction k generalizing m with
  | zero => exact ⟨rfl, rfl⟩
  | succ k ih =>
    have first : (m.lifted base count again).onward d t = (m.onward d t).lifted base count again :=
      onward_lifted opened (under 0 (Nat.succ_pos k))
    have goes := goes_onward d t (m.lifted base count again)
    rw [first] at goes
    obtain ⟨reached, events⟩ := ih (goes.fits valid fits) (goes.repeats fits opened).1
      fun j lt => under (j + 1) (Nat.succ_lt_succ lt)
    refine ⟨?_, ?_⟩
    · rw [Function.iterate_succ_apply, first, reached, Function.iterate_succ_apply]
    · rw [made, made, first, events]
      rfl

end

end MacroGraph.Engine.Machine
