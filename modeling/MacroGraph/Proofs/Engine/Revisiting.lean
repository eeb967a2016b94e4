import Mathlib.Dynamics.PeriodicPts.Defs
import MacroGraph.Proofs.Engine.Onward

/-!
Walks that enter a node again. The node finds the machine as it was when the walk entered it before,
since nested walks take back all that they publish. So the run goes round one cycle of steps until
the world disturbs it, and the walk never returns: `revisiting_walk_goes_round`.
-/
namespace MacroGraph.Engine
variable {d : Document} {t : Timing}

def Point.isOpening : Point → Bool
  | .begin | .clear | .root => true
  | _ => false

namespace Machine

def Enters (stack : List Frame) (n : Node) (m : Machine) : Prop :=
  m.point = .enter n ∧ m.stack = stack

def Returns (stack : List Frame) (m : Machine) : Prop :=
  m.point = .walked ∧ m.stack = stack

instance (stack : List Frame) : DecidablePred (Returns stack) :=
  fun m => inferInstanceAs (Decidable (m.point = .walked ∧ m.stack = stack))

/-- A machine without the number of nodes it has entered, on which nothing depends. -/
def uncounted (m : Machine) : Machine := { m with entered := 0 }

theorem Returns.of_uncounted {stack : List Frame} {m other : Machine} (returns : m.Returns stack)
    (same : m.uncounted = other.uncounted) : other.Returns stack :=
  ⟨(congrArg point same).symm.trans returns.1, (congrArg Machine.stack same).symm.trans returns.2⟩

theorem Returns.demand {stack : List Frame} {m : Machine} (returns : m.Returns stack) :
    m.demand = .nothing := by
  rw [Machine.demand, returns.1]

theorem uncounted_step (running : Bool) (m : Machine) :
    (m.uncounted.step d t running).1.uncounted = (m.step d t running).1.uncounted := by
  obtain ⟨point, stack, outputs, entered, repeats⟩ := m
  unfold step uncounted
  cases point with
  | root | arrive id | leave n pin =>
    simp only
    split <;> rfl
  | execute n =>
    simp only [executed, withdrawn, goto]
    split
    · split <;> rfl
    · rfl
  | iterate n next total =>
    simp only [iterated, body]
    split
    · split <;> rfl
    · rfl
  | check n next =>
    simp only [checked, body]
    split
    · split
      · split <;> rfl
      · rfl
    · rfl
  | wait n remaining pause =>
    simp only [waited]
    split <;> rfl
  | walked =>
    simp only [returned]
    cases stack with
    | nil =>
      simp only
      split <;> rfl
    | cons f rest => cases f <;> rfl
  | _ => rfl

theorem uncounted_notified (m : Machine) :
    m.uncounted.notified.1.uncounted = m.notified.1.uncounted := by
  obtain ⟨point, stack, outputs, entered, repeats⟩ := m
  cases point <;> rfl

theorem uncounted_answered (m : Machine) (answer : Except ActionError Unit) :
    (m.uncounted.answered answer).uncounted = (m.answered answer).uncounted := by
  obtain ⟨point, stack, outputs, entered, repeats⟩ := m
  cases point <;> cases answer <;> rfl

/-- What a machine does next without the number of nodes it has entered. -/
def circled (d : Document) (t : Timing) (m : Machine) : Machine := (m.onward d t).uncounted

theorem semiconj_uncounted : Function.Semiconj uncounted (onward d t) (circled d t) := by
  intro m
  have demand : m.uncounted.demand = m.demand := rfl
  unfold circled onward
  rw [demand]
  cases m.demand with
  | nothing => exact (uncounted_step true m).symm
  | notify n => exact (uncounted_notified m).symm
  | act a => exact (uncounted_answered m (.ok ())).symm
  | ended result => rfl

theorem isFinished_onward {m : Machine} (finished : m.point.isFinished = true) :
    (m.onward d t).point.isFinished = true := by
  unfold onward demand
  cases here : m.point with
  | finish fault => simp [notified, here, goto, Point.isFinished]
  | report fault => simp [step, here, goto, Point.isFinished]
  | ended result => simp [here, Point.isFinished]
  | _ =>
    rw [here] at finished
    cases finished

theorem going_of_later {m : Machine} {j k : Nat} (le : j ≤ k)
    (going : ((onward d t)^[k] m).point.isFinished = false) :
    ((onward d t)^[j] m).point.isFinished = false := by
  obtain ⟨n, rfl⟩ := Nat.exists_eq_add_of_le le
  rw [← Bool.not_eq_true] at going ⊢
  intro finished
  apply going
  rw [Nat.add_comm, Function.iterate_add_apply]
  exact Function.Iterate.rec (fun m : Machine => m.point.isFinished = true) finished
    (fun _ => isFinished_onward) n

theorem Executes.isOpening {n : Node} {p : Point} (executes : Executes n p) :
    p.isOpening = false := by
  cases executes <;> rfl

theorem Moves.repeats {running : Bool} {m after : Machine} {notes : List Note}
    (moves : Moves d t running m after notes) (opened : m.point.isOpening = false) :
    after.point.isOpening = false ∧ after.repeats = m.repeats := by
  cases moves with
  | begins here | unrooted here | roots n here =>
    rw [here] at opened
    cases opened
  | executes n here up =>
    refine ⟨?_, ?_⟩
    · rw [(executed_eq d m n).1]
      exact (executes_execution d m.outputs n).isOpening
    · unfold executed
      split <;> rfl
  | wakes n remaining pause here halted => cases pause <;> exact ⟨rfl, rfl⟩
  | _ => exact ⟨rfl, rfl⟩

theorem Goes.repeats {m after : Machine} (goes : Goes d t m after) (fits : m.Fits d)
    (opened : m.point.isOpening = false) :
    after.point.isOpening = false ∧ after.repeats = m.repeats := by
  cases goes with
  | moves moves => exact moves.repeats opened
  | notified demand =>
    rcases notified_cases demand with ⟨here, _⟩ | ⟨n, _, _, goes⟩ | ⟨fault, _, _, goes⟩
    · rw [here] at opened
      cases opened
    · rw [goes]
      exact ⟨rfl, rfl⟩
    · rw [goes]
      exact ⟨rfl, rfl⟩
  | answered answer demand =>
    have same : (m.answered answer).repeats = m.repeats := by
      unfold Machine.answered
      split <;> rfl
    cases answer with
    | ok _ =>
      refine ⟨?_, same⟩
      rcases fits.answered_ok demand with ⟨n, pin, next⟩ | ⟨n, remaining, pause, next⟩ <;>
        rw [next] <;> rfl
    | error cause =>
      refine ⟨?_, same⟩
      have faulted := isFaulted_answered cause demand
      generalize (m.answered (.error cause)).point = p at faulted ⊢
      cases p <;> first | rfl | cases faulted
  | stays => exact ⟨opened, rfl⟩

/-- A walk finds nothing changed where it enters a node again. -/
theorem Enters.uncounted_eq {m other : Machine} {stack : List Frame} {n n' : Node}
    (enters : m.Enters stack n) (again : other.Enters stack n') (same : n.id = n'.id)
    (fits : m.Fits d) (fits' : other.Fits d) (repeats : other.repeats = m.repeats) :
    other.uncounted = m.uncounted := by
  obtain ⟨here, frames⟩ := enters
  obtain ⟨here', frames'⟩ := again
  have point := fits.point
  have point' := fits'.point
  rw [here] at point
  rw [here'] at point'
  have node : n = n' := Option.some.inj (point.1.symm.trans (same ▸ point'.1))
  have outputs : other.outputs = m.outputs := by
    rw [fits.outputs, fits'.outputs, held_eq (by simp [here']), held_eq (by simp [here]), frames,
      frames']
  unfold uncounted
  rw [here, here', frames, frames', node, outputs, repeats]

end Machine

namespace Run
variable {σ : Type} {host : Host σ}

theorem Fits.repeats_steps (host : Host σ) (valid : d.Valid) {r : Run σ} (fits : r.Fits d t)
    (opened : r.worker.machine.point.isOpening = false) (n : Nat) :
    (r.steps host n).worker.machine.repeats = r.worker.machine.repeats := by
  have keeps := steps_keeps host
    (fun m => m.Fits d ∧ m.point.isOpening = false ∧ m.repeats = r.worker.machine.repeats)
    (fun goes ⟨fits, opened, same⟩ =>
      ⟨goes.fits valid fits, (goes.repeats fits opened).1, (goes.repeats fits opened).2.trans same⟩)
    fits.document fits.timing ⟨fits.machine, opened, rfl⟩ n
  exact keeps.2.2.2.2

theorem Fits.undisturbed_of_add {r : Run σ} (valid : d.Valid) (fits : r.Fits d t) {m n : Nat}
    (later : (r.steps host (m + n)).Undisturbed) : (r.steps host m).Undisturbed := by
  rw [steps_add] at later
  have fits := fits.steps host valid m
  exact (machine_steps fits.document fits.timing later).1

theorem Fits.uncounted_steps {r : Run σ} (fits : r.Fits d t) {n : Nat}
    (after : (r.steps host n).Undisturbed) :
    (r.steps host n).worker.machine.uncounted =
      (Machine.circled d t)^[n] r.worker.machine.uncounted := by
  rw [(machine_steps fits.document fits.timing after).2]
  exact Machine.semiconj_uncounted.iterate_right n r.worker.machine

/-- Whatever brings a machine back to where it was brings it there time and again. -/
theorem Fits.goes_round (valid : d.Valid) {r : Run σ} (fits : r.Fits d t) {round n : Nat}
    (back : (r.steps host round).worker.machine.uncounted = r.worker.machine.uncounted)
    (later : (r.steps host (round + n)).Undisturbed) :
    (r.steps host (round + n)).worker.machine.uncounted =
      (r.steps host (n % round)).worker.machine.uncounted := by
  have first : (r.steps host round).Undisturbed := fits.undisturbed_of_add valid later
  have within : (r.steps host (n % round)).Undisturbed := by
    have le : n % round ≤ round + n := (Nat.mod_le n round).trans (Nat.le_add_left n round)
    rw [← Nat.add_sub_cancel' le] at later
    exact fits.undisturbed_of_add valid later
  have periodic : Function.IsPeriodicPt (Machine.circled d t) round r.worker.machine.uncounted := by
    rw [Function.IsPeriodicPt, Function.IsFixedPt, ← fits.uncounted_steps first]
    exact back
  calc (r.steps host (round + n)).worker.machine.uncounted
      = (Machine.circled d t)^[round + n] r.worker.machine.uncounted := fits.uncounted_steps later
    _ = (Machine.circled d t)^[n] r.worker.machine.uncounted := by
      rw [Nat.add_comm, Function.iterate_add_apply, periodic]
    _ = (Machine.circled d t)^[n % round] r.worker.machine.uncounted :=
      (periodic.iterate_mod_apply n).symm
    _ = (r.steps host (n % round)).worker.machine.uncounted := (fits.uncounted_steps within).symm

theorem Fits.going_before_enter (valid : d.Valid) {r : Run σ} (fits : r.Fits d t) {k n : Nat}
    (le : k ≤ n) (after : (r.steps host n).Undisturbed) {l : Node}
    (enters : (r.steps host n).worker.machine.point = .enter l) :
    (r.steps host k).worker.machine.point.isFinished = false := by
  rw [← Nat.add_sub_cancel' le, steps_add] at after enters
  have later := fits.steps host valid k
  rw [(machine_steps later.document later.timing after).2] at enters
  exact Machine.going_of_later (Nat.zero_le (n - k)) (by rw [enters]; rfl)

theorem Fits.undisturbed_of_enter {r : Run σ} (fits : r.Fits d t) {n : Node}
    (enters : r.worker.machine.point = .enter n) : r.Undisturbed := by
  refine ⟨isAlive_of_not_ended (fits.intact ?_) ?_, fits.enters n enters, ?_⟩
  · simp [Machine.demand, enters]
  · simp [enters]
  · rw [enters]
    rfl

/-- After a first round of steps a run goes round the same steps, and the walk above these frames
does not return, until the world disturbs it. -/
structure GoesRound (host : Host σ) (stack : List Frame) (round : Nat) (r : Run σ) : Prop where
  begins : (r.steps host round).Undisturbed
  repeats : ∀ n, (r.steps host (round + n)).Undisturbed →
    (r.steps host (round + n)).worker.machine.uncounted =
      (r.steps host (n % round)).worker.machine.uncounted
  stays : ∀ n, (r.steps host (round + n)).Undisturbed →
    ¬ (r.steps host (round + n)).worker.machine.Returns stack
  going : ∀ n, (r.steps host (round + n)).Undisturbed →
    (r.steps host (round + n + 1)).Undisturbed ∨ (r.steps host (round + n)).Disturbed host

theorem Fits.goesRound (host : Host σ) (valid : d.Valid) {r : Run σ} (fits : r.Fits d t)
    {stack : List Frame} {n n' : Node} {round : Nat} (pos : 0 < round)
    (enters : r.worker.machine.Enters stack n)
    (again : (r.steps host round).worker.machine.Enters stack n') (same : n.id = n'.id)
    (under : ∀ k < round, ¬ (r.steps host k).worker.machine.Returns stack) :
    r.GoesRound host stack round := by
  have opened : r.worker.machine.point.isOpening = false := by
    rw [enters.1]
    rfl
  have begins := (fits.steps host valid round).undisturbed_of_enter again.1
  have back := enters.uncounted_eq again same fits.machine (fits.steps host valid round).machine
    (fits.repeats_steps host valid opened round)
  have repeats := fun n => fits.goes_round valid (n := n) back
  have lt : ∀ n, n % round < round := fun n => Nat.mod_lt n pos
  refine ⟨begins, repeats, ?stays, ?going⟩
  case stays =>
    intro n later returns
    exact under _ (lt n) (returns.of_uncounted (repeats n later))
  case going =>
    intro n later
    have going := fits.going_before_enter valid (lt n).le begins again.1
    rw [steps_succ_last later.alive]
    refine later.step host (fits.steps host valid (round + n)) ?_
    exact (congrArg (fun m : Machine => m.point.isFinished) (repeats n later)).trans going

end Run

/-- A walk that returns with the flag up has entered each node at most once. A walk that enters a
node again makes the same steps as since it entered the node before, round by round, and it does not
return until the world lowers the flag or fails to do an action. -/
theorem revisiting_walk_goes_round {σ : Type} (host : Host σ) (valid : d.Valid) (t : Timing)
    (level : Option Log.Level) (running : Bool) (world : σ) :
    let run := fun n => (Run.begin d t level running world).steps host n
    let machine := fun n => (run n).worker.machine
    (∀ stack i j, (∀ k, i ≤ k → k < j → ¬ (machine k).Returns stack) →
      (machine j).Returns stack → (run j).worker.running = true →
      ∀ a b n n', i ≤ a → a < b → b < j → (machine a).Enters stack n →
        (machine b).Enters stack n' → n.id ≠ n'.id) ∧
    ∀ stack a round n n', 0 < round → (machine a).Enters stack n →
      (machine (a + round)).Enters stack n' → n.id = n'.id →
      (∀ k < round, ¬ (machine (a + k)).Returns stack) → (run a).GoesRound host stack round := by
  intro run machine
  have fits : ∀ n, (run n).Fits d t := fun n =>
    (Run.fits_begin d t level running world).steps host valid n
  have next : ∀ m n, run (m + n) = (run m).steps host n := Run.steps_add _
  refine ⟨?once, ?rounds⟩
  case once =>
    intro stack i j under returns up a b n n' first lt last enters again same
    obtain ⟨round, rfl⟩ : ∃ round, b = a + round := ⟨b - a, by omega⟩
    obtain ⟨q, rfl⟩ : ∃ q, j = a + (round + q) := ⟨j - (a + round), by omega⟩
    have within : ∀ k < round, ¬ (machine (a + k)).Returns stack :=
      fun k lt => under (a + k) (by omega) (by omega)
    have undisturbed : (run (a + (round + q))).Undisturbed :=
      ⟨(fits (a + (round + q))).alive returns.demand, up, by rw [returns.1]; rfl⟩
    simp only [machine, next] at again within undisturbed returns
    have goes := (fits a).goesRound host valid (by omega) enters again same within
    exact goes.stays q undisturbed returns
  case rounds =>
    intro stack a round n n' pos enters again same under
    simp only [machine, next] at again under
    exact (fits a).goesRound host valid pos enters again same under

def roundabout : Document where
  serial := 0
  nodes := [⟨"s", .start, []⟩, ⟨"l", .loop, [("Iterations", .number (.ofNat 2))]⟩,
    ⟨"c", .mouseClick, []⟩, ⟨"m", .mouseMove, []⟩]
  connections := [⟨"s", Pin.exec, "l", Pin.exec, .exec⟩, ⟨"l", Pin.loopBody, "c", Pin.exec, .exec⟩,
    ⟨"c", Pin.exec, "m", Pin.exec, .exec⟩, ⟨"l", Pin.completed, "l", Pin.exec, .exec⟩]
  start := "s"
  index := { exec := [(("s", Pin.exec), "l"), (("l", Pin.loopBody), "c"), (("c", Pin.exec), "m"),
    (("l", Pin.completed), "l")] }

/-- The first walk of the body returns, and it enters no node twice. The outermost walk enters the
loop again after 29 steps, and every 29 steps it stands where it stood. -/
theorem roundabout_goes_round :
    let run := fun n => (Run.begin roundabout {} none true ()).steps willing n
    let machine := fun n => (run n).worker.machine
    let l : Node := ⟨"l", .loop, [("Iterations", .number (.ofNat 2))]⟩
    roundabout.Valid ∧ (machine 21).Returns [.loop l 1 2] ∧
      (∀ a b n n', 11 ≤ a → a < b → b < 21 → (machine a).Enters [.loop l 1 2] n →
        (machine b).Enters [.loop l 1 2] n' → n.id ≠ n'.id) ∧
      (machine 8).Enters [] l ∧ (machine 37).Enters [] l ∧ (run 8).GoesRound willing [] 29 ∧
      (machine 71).uncounted = (machine 13).uncounted := by
  intro run machine l
  have valid : roundabout.Valid := rfl
  obtain ⟨once, again⟩ := revisiting_walk_goes_round willing valid {} none true ()
  have goes := again [] 8 29 l l (by decide) ⟨rfl, rfl⟩ ⟨rfl, rfl⟩ rfl (by decide +kernel)
  exact ⟨valid, ⟨rfl, rfl⟩, once [.loop l 1 2] 11 21 (by decide +kernel) ⟨rfl, rfl⟩ rfl, ⟨rfl, rfl⟩,
    ⟨rfl, rfl⟩, goes, goes.repeats 34 ⟨rfl, rfl, rfl⟩⟩

end MacroGraph.Engine
