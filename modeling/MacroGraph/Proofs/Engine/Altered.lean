import MacroGraph.Proofs.Engine.Trace

namespace MacroGraph.Engine
variable {σ : Type}

def Host.altered (host : Host σ) (alter : Reaction σ → Reaction σ) : Host σ :=
  fun w e => alter (host w e)

/-- The same world, which counts events from zero on and reacts otherwise to event `k`. -/
def Host.alteredAt (host : Host σ) (k : Nat) (alter : Reaction σ → Reaction σ) : Host (σ × Nat) :=
  fun w e =>
    let r := if w.2 = k then alter (host w.1 e) else host w.1 e
    { world := (r.world, w.2 + 1), lowers := r.lowers, reply := r.reply, log := r.log }

namespace Run
variable {host : Host σ} {k : Nat} {alter : Reaction σ → Reaction σ}

def counting (r : Run σ) : Run (σ × Nat) :=
  { worker := r.worker, world := (r.world, r.events.size), level := r.level,
    events := r.events, log := r.log }

theorem counting_step_of_reacts {other : Host σ} {r : Run σ}
    (alike : ∀ e, r.event? = some e → host.alteredAt k alter (r.world, r.events.size) e =
      { world := ((other r.world e).world, r.events.size + 1)
        lowers := (other r.world e).lowers
        reply := (other r.world e).reply
        log := (other r.world e).log }) :
    r.counting.step (host.alteredAt k alter) = (r.step other).counting := by
  unfold event? at alike
  cases demand : r.worker.machine.demand with
  | nothing => simp [step, counting, demand, note]
  | ended result => simp [step, counting, demand]
  | notify n =>
    have reacts := alike (.notice n) (by simp [demand])
    simp [step, counting, demand, reacts, logEntries, note]
  | act a =>
    have reacts := alike (.action a) (by simp [demand])
    simp [step, counting, demand, reacts, logEntries]

/-- The step that makes event `k` is that of a world which always reacts otherwise. -/
theorem counting_step_at (r : Run σ) :
    r.counting.step (host.alteredAt r.events.size alter) = (r.step (host.altered alter)).counting :=
  counting_step_of_reacts fun e _ => by simp [Host.alteredAt, Host.altered]

theorem counting_step {r : Run σ} (other : r.event? ≠ none → r.events.size ≠ k) :
    r.counting.step (host.alteredAt k alter) = (r.step host).counting :=
  counting_step_of_reacts fun e event => by
    simp [Host.alteredAt, other (by rw [event]; exact Option.some_ne_none e)]

theorem counting_steps {r : Run σ} {n : Nat} (few : (r.steps host n).events.size ≤ k) :
    r.counting.steps (host.alteredAt k alter) n = (r.steps host n).counting := by
  induction n generalizing r with
  | zero => rfl
  | succ n ih =>
    by_cases alive : r.worker.isAlive = true
    · rw [steps_succ alive] at few
      rw [steps_succ alive, steps_succ (r := r.counting) alive, counting_step ?_, ih few]
      intro makes
      have one : 1 ≤ r.event?.toList.length := by
        cases event : r.event? with
        | none => exact absurd event makes
        | some e => simp
      have grows := congrArg List.length (events_step host r)
      have later := size_le_steps host (r.step host) n
      simp only [Array.length_toList, List.length_append] at grows
      omega
    · rw [Bool.not_eq_true] at alive
      rw [steps_of_not_isAlive alive, steps_of_not_isAlive (r := r.counting) alive]

theorem counting_steps_at (alter : Reaction σ → Reaction σ) {r : Run σ} {n : Nat}
    (alive : (r.steps host n).worker.isAlive = true) :
    r.counting.steps (host.alteredAt (r.steps host n).events.size alter) (n + 1) =
      ((r.steps host n).step (host.altered alter)).counting := by
  have same : r.counting.steps (host.alteredAt (r.steps host n).events.size alter) n =
      (r.steps host n).counting := counting_steps (Nat.le_refl _)
  rw [steps_succ_last (by rw [same]; exact alive), same, counting_step_at]

end Run
end MacroGraph.Engine
