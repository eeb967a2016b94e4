import MacroGraph.Proofs.Engine.Cancellation
import MacroGraph.Proofs.Engine.Onward

/-!
Interrupted runs. Somebody else may lower the flag of a run at any time, also between two steps
where no event is under way. What every step keeps, and the lowering of the flag too, holds at every
moment: `Run.invariant_interrupted`. As long as it is undisturbed, an interrupted run does what its
machine alone would: `Run.machine_interrupted`.
-/
namespace MacroGraph.Engine
variable {d : Document} {t : Timing}

/-- Every step keeps this of a flag and a machine, and so does the lowering of the flag. -/
structure Machine.Invariant (d : Document) (t : Timing) (keeps : Bool → Machine → Prop) : Prop where
  down : ∀ {running : Bool} {m : Machine}, keeps running m → keeps false m
  moves : ∀ {running : Bool} {m after : Machine} {notes : List Note},
    Moves d t running m after notes → keeps running m → keeps running after
  notified : ∀ {running : Bool} {m : Machine} {n : Notice}, m.demand = .notify n →
    keeps running m → keeps running m.notified.1
  answered : ∀ {running : Bool} {m : Machine} {a : Action} (answer : Except ActionError Unit),
    m.demand = .act a → keeps running m → keeps running (m.answered answer)

theorem Machine.Invariant.iterate_onward {keeps : Bool → Machine → Prop}
    (invariant : Invariant d t keeps) {m : Machine} (kept : keeps true m) (k : Nat) :
    keeps true ((onward d t)^[k] m) := by
  induction k with
  | zero => exact kept
  | succ k ih =>
    rw [Function.iterate_succ_apply']
    unfold onward
    split
    · next demand => exact invariant.moves (moves_step d t true demand) ih
    · next demand => exact invariant.notified demand ih
    · next demand => exact invariant.answered (.ok ()) demand ih
    · exact ih

namespace Run
variable {σ : Type} {host : Host σ} {r : Run σ}

/-- A moment of a run: its flag is lowered from outside, or else it makes a step of its own. -/
def passes (host : Host σ) (lowers : Bool) (r : Run σ) : Run σ :=
  if lowers then r.lowered else if r.worker.isAlive then r.step host else r

/-- A run whose flag is lowered from outside at these moments. -/
def interrupted (host : Host σ) (lowers : Nat → Bool) (r : Run σ) : Nat → Run σ
  | 0 => r
  | k + 1 => (r.interrupted host lowers k).passes host (lowers k)

theorem interrupted_quiet {lowers : Nat → Bool} {a k : Nat}
    (quiet : ∀ j < k, lowers (a + j) = false) :
    r.interrupted host lowers (a + k) = (r.interrupted host lowers a).steps host k := by
  induction k with
  | zero => rfl
  | succ k ih =>
    have before := ih fun j lt => quiet j (Nat.lt_succ_of_lt lt)
    rw [show a + (k + 1) = a + k + 1 from rfl, interrupted, quiet k (Nat.lt_succ_self k), passes,
      if_neg Bool.false_ne_true, before]
    split
    · next alive => exact (steps_succ_last alive).symm
    · next halted => exact (steps_succ_over (by simpa using halted)).symm

theorem running_step (host : Host σ) (down : r.worker.running = false) :
    (r.step host).worker.running = false := by
  cases demand : r.worker.machine.demand with
  | nothing =>
    rw [step_worker_silent demand, Worker.advance]
    simp only
    split
    · rfl
    · exact down
  | notify n =>
    rw [step_worker_notify demand]
    simp [Worker.notified, down]
  | act a =>
    rw [step_worker_act demand]
    cases (host r.world (.action a)).reply <;> simp [Worker.answered, down]
  | ended result => simpa [step, demand] using down

theorem running_steps (host : Host σ) (down : r.worker.running = false) (n : Nat) :
    (r.steps host n).worker.running = false :=
  steps_preserves (fun r => r.worker.running = false) (fun _ down _ => running_step host down) n down

theorem lowered_of_down (down : r.worker.running = false) : r.lowered = r := by
  rw [lowered, Worker.lower, ← down]

/-- Once its flag is down an interrupted run makes its own steps, if it is let to. -/
theorem interrupted_down {lowers : Nat → Bool} {a : Nat}
    (down : (r.interrupted host lowers a).worker.running = false) (k : Nat) :
    ∃ n, r.interrupted host lowers (a + k) = (r.interrupted host lowers a).steps host n := by
  induction k with
  | zero => exact ⟨0, rfl⟩
  | succ k ih =>
    obtain ⟨n, before⟩ := ih
    rw [show a + (k + 1) = a + k + 1 from rfl, interrupted, before, passes]
    split
    · exact ⟨n, lowered_of_down (running_steps host down n)⟩
    · split
      · next alive => exact ⟨n + 1, (steps_succ_last alive).symm⟩
      · exact ⟨n, rfl⟩

theorem goes_passes (host : Host σ) (lowers : Bool) (document : r.worker.document = d)
    (timing : r.worker.timing = t) :
    (r.passes host lowers).worker.document = d ∧ (r.passes host lowers).worker.timing = t ∧
      Machine.Goes d t r.worker.machine (r.passes host lowers).worker.machine := by
  unfold passes
  split
  · exact ⟨document, timing, .stays⟩
  · split
    · exact goes_step host document timing
    · exact ⟨document, timing, .stays⟩

section
variable (document : r.worker.document = d) (timing : r.worker.timing = t)
include document timing

theorem document_interrupted (host : Host σ) (lowers : Nat → Bool) (k : Nat) :
    (r.interrupted host lowers k).worker.document = d ∧
      (r.interrupted host lowers k).worker.timing = t := by
  induction k with
  | zero => exact ⟨document, timing⟩
  | succ k ih =>
    obtain ⟨document', timing', _⟩ := goes_passes host (lowers k) ih.1 ih.2
    exact ⟨document', timing'⟩

theorem goes_interrupted (host : Host σ) (lowers : Nat → Bool) (k : Nat) :
    Machine.Goes d t (r.interrupted host lowers k).worker.machine
      (r.interrupted host lowers (k + 1)).worker.machine := by
  obtain ⟨document, timing⟩ := document_interrupted document timing host lowers k
  exact (goes_passes host (lowers k) document timing).2.2

/-- What every step of the machine keeps, whether the flag is up or down, holds at every moment. -/
theorem keeps_interrupted (host : Host σ) (lowers : Nat → Bool) (keeps : Machine → Prop)
    (goes : ∀ {m after : Machine}, Machine.Goes d t m after → keeps m → keeps after)
    (first : keeps r.worker.machine) (k : Nat) :
    keeps (r.interrupted host lowers k).worker.machine := by
  induction k with
  | zero => exact first
  | succ k ih => exact goes (goes_interrupted document timing host lowers k) ih

variable {keeps : Bool → Machine → Prop} (invariant : Machine.Invariant d t keeps)
include invariant

theorem invariant_step (host : Host σ) (kept : keeps r.worker.running r.worker.machine) :
    keeps (r.step host).worker.running (r.step host).worker.machine := by
  have lower : ∀ {m : Machine} (lowers : Bool), keeps r.worker.running m →
      keeps (r.worker.running && !lowers) m := by
    intro m lowers kept
    cases lowers with
    | false => simpa using kept
    | true => simpa using invariant.down kept
  cases demand : r.worker.machine.demand with
  | nothing =>
    have after := invariant.moves (Machine.moves_step d t r.worker.running demand) kept
    rw [step_worker_silent demand, Worker.advance, document, timing]
    simp only
    split
    · exact invariant.down after
    · exact after
  | notify n =>
    rw [step_worker_notify demand]
    exact lower _ (invariant.notified demand kept)
  | act a =>
    rw [step_worker_act demand]
    cases (host r.world (.action a)).reply with
    | done | failed => exact lower _ (invariant.answered _ demand kept)
    | crashed => exact lower _ kept
  | ended result => simpa [step, demand] using kept

theorem invariant_interrupted (host : Host σ) (lowers : Nat → Bool)
    (kept : keeps r.worker.running r.worker.machine) (k : Nat) :
    keeps (r.interrupted host lowers k).worker.running
      (r.interrupted host lowers k).worker.machine := by
  induction k with
  | zero => exact kept
  | succ k ih =>
    obtain ⟨document, timing⟩ := document_interrupted document timing host lowers k
    rw [interrupted, passes]
    split
    · exact invariant.down ih
    · split
      · exact invariant_step document timing invariant host ih
      · exact ih

end

theorem alive_interrupted (host : Host σ) (lowers : Nat → Bool) (intact : r.worker.crashed = false)
    {k : Nat} (silent : (r.interrupted host lowers k).worker.machine.demand = .nothing) :
    (r.interrupted host lowers k).worker.isAlive = true := by
  have breaks : ∀ k, (r.interrupted host lowers k).worker.crashed = true →
      ∃ a, (r.interrupted host lowers k).worker.machine.demand = .act a := by
    intro k
    induction k with
    | zero =>
      intro crashed
      cases intact.symm.trans crashed
    | succ k ih =>
      rw [interrupted, passes]
      split
      · exact ih
      · split
        · next alive => exact breaks_step host alive
        · exact ih
  cases crashed : (r.interrupted host lowers k).worker.crashed with
  | false => simp [Worker.isAlive, crashed, silent]
  | true =>
    obtain ⟨a, asks⟩ := breaks k crashed
    cases silent.symm.trans asks

theorem Undisturbed.of_passes {lowers : Bool} (document : r.worker.document = d)
    (timing : r.worker.timing = t) (after : (r.passes host lowers).Undisturbed) :
    lowers = false ∧ r.Undisturbed := by
  unfold passes at after
  split at after
  · cases after.up
  · next quiet =>
    refine ⟨by simpa using quiet, ?_⟩
    split at after
    · next alive => exact (after.of_step document timing alive).1
    · exact after

section
variable {lowers : Nat → Bool} (document : r.worker.document = d) (timing : r.worker.timing = t)
include document timing

/-- A run that is undisturbed was so before, and nobody lowered its flag. -/
theorem undisturbed_interrupted {a k : Nat}
    (after : (r.interrupted host lowers (a + k)).Undisturbed) :
    ∀ j < k, lowers (a + j) = false ∧ (r.interrupted host lowers (a + j)).Undisturbed := by
  induction k with
  | zero => exact nofun
  | succ k ih =>
    obtain ⟨document', timing'⟩ := document_interrupted document timing host lowers (a + k)
    obtain ⟨quiet, before⟩ := Undisturbed.of_passes document' timing' after
    intro j lt
    rcases Nat.eq_or_lt_of_le (Nat.le_of_lt_succ lt) with rfl | earlier
    · exact ⟨quiet, before⟩
    · exact ih before j earlier

theorem machine_interrupted {a k : Nat}
    (after : (r.interrupted host lowers (a + k)).Undisturbed) :
    (r.interrupted host lowers (a + k)).worker.machine =
        (Machine.onward d t)^[k] (r.interrupted host lowers a).worker.machine ∧
      (r.interrupted host lowers (a + k)).events.toList =
        (r.interrupted host lowers a).events.toList ++
          Machine.made d t k (r.interrupted host lowers a).worker.machine := by
  have before := undisturbed_interrupted document timing after
  obtain ⟨document', timing'⟩ := document_interrupted document timing host lowers a
  rw [interrupted_quiet fun j lt => (before j lt).1] at after ⊢
  exact ⟨(machine_steps document' timing' after).2,
    events_steps_undisturbed document' timing' after⟩

theorem fits_interrupted (valid : d.Valid) (fits : r.worker.machine.Fits d) (host : Host σ)
    (lowers : Nat → Bool) (k : Nat) : (r.interrupted host lowers k).worker.machine.Fits d :=
  keeps_interrupted document timing host lowers _ (Machine.Goes.fits valid) fits k

/-- So much holds of an interrupted run for as long as it is undisturbed. -/
theorem fits_of_undisturbed (valid : d.Valid) (fits : r.worker.machine.Fits d) {k : Nat}
    (undisturbed : (r.interrupted host lowers k).Undisturbed) :
    (r.interrupted host lowers k).Fits d t := by
  obtain ⟨document', timing'⟩ := document_interrupted document timing host lowers k
  exact undisturbed.fits document' timing' (fits_interrupted document timing valid fits host lowers k)

end

end Run
end MacroGraph.Engine
