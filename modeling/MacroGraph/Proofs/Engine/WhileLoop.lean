import MacroGraph.Proofs.Engine.Interruption

namespace MacroGraph.Engine
variable {d : Document} {t : Timing}

namespace Machine

/-- The condition of a while loop, as it is read under what is published. -/
def condition (d : Document) (m : Machine) (w : Node) : Bool :=
  Evaluation.boolean d m.outputs w "Condition" false

/-- A while loop is under way above these frames: it is about to check its condition, or its body
is being walked. -/
def Loops (w : Node) (stack : List Frame) (m : Machine) : Prop :=
  (∃ next, m.point = .check w next) ∧ m.stack = stack ∨
    (∃ next, m.Above (.whileLoop w next) stack) ∧ m.point.isFinished = false

theorem Loops.checks {w : Node} {stack : List Frame} {m : Machine} (loops : m.Loops w stack)
    (same : m.stack = stack) : ∃ next, m.point = .check w next := by
  rcases loops with ⟨here, _⟩ | ⟨⟨next, inner, frames⟩, _⟩
  · exact here
  · have longer := congrArg List.length (same.symm.trans frames)
    simp only [List.length_append, List.length_cons] at longer
    omega

theorem Loops.isFinished {w : Node} {stack : List Frame} {m : Machine} (loops : m.Loops w stack) :
    m.point.isFinished = false := by
  rcases loops with ⟨⟨next, here⟩, _⟩ | ⟨_, going⟩
  · rw [here]
    rfl
  · exact going

/-- Whenever a while loop checks its condition, it reads what the loops around it publish. -/
theorem Fits.condition_check {m : Machine} (fits : m.Fits d) {w : Node} {next : Nat}
    (here : m.point = .check w next) :
    m.condition d w = Evaluation.boolean d (published m.stack) w "Condition" false := by
  rw [condition, fits.outputs, held_eq (by simp [here])]

theorem demand_leave {m : Machine} {n : Node} {pin : Option String}
    (here : m.point = .leave n pin) : m.demand = .nothing := by
  rw [demand, here]

theorem onward_execute {m : Machine} {w : Node} (here : m.point = .execute w)
    (kind : w.kind = .whileLoop) : m.onward d t = m.goto (.check w 0) := by
  simp [onward, demand, here, step, executed, execution, kind]

theorem onward_refused {m : Machine} {w : Node} {next : Nat} (here : m.point = .check w next)
    (fails : m.condition d w = false) :
    m.onward d t = m.goto (.leave w (some Pin.completed)) := by
  unfold condition at fails
  simp [onward, demand, here, step, checked, fails]

theorem onward_check {m : Machine} {w : Node} {next : Nat} (here : m.point = .check w next)
    (holds : m.condition d w = true) : (m.onward d t).Loops w m.stack := by
  unfold condition at holds
  simp only [onward, demand, here, step, checked, holds, if_true, body, Frame.node]
  split
  · exact .inr ⟨⟨next + 1, [], rfl⟩, rfl⟩
  · exact .inl ⟨⟨next + 1, rfl⟩, rfl⟩

section
variable {w : Node} {stack : List Frame}
  (holds : Evaluation.boolean d (published stack) w "Condition" false = true)
include holds

theorem Loops.onward {m : Machine} (loops : m.Loops w stack) (fits : m.Fits d) :
    (m.onward d t).Loops w stack := by
  rcases loops with ⟨⟨next, here⟩, rfl⟩ | ⟨⟨next, above⟩, going⟩
  · exact onward_check here ((fits.condition_check here).trans holds)
  · rcases (goes_onward d t m).above above with still | ⟨below, resumed⟩
    · refine .inr ⟨⟨next, still⟩, ?_⟩
      rcases fits.onward_isFinished (t := t) going with going | ⟨_, empty⟩
      · exact going
      · obtain ⟨inner, frames⟩ := above
        rw [empty] at frames
        simp at frames
    · exact .inl ⟨⟨next, resumed⟩, below⟩

theorem Loops.iterate_onward (valid : d.Valid) {m : Machine} (loops : m.Loops w stack)
    (fits : m.Fits d) (n : Nat) : ((Machine.onward d t)^[n] m).Loops w stack := by
  induction n with
  | zero => exact loops
  | succ n ih =>
    rw [Function.iterate_succ_apply']
    exact ih.onward holds (fits.iterate_onward valid n)

end

end Machine

namespace Run
variable {σ : Type} {host : Host σ} {r : Run σ} {w : Node}

theorem Fits.begins_while (host : Host σ) (fits : r.Fits d t)
    (here : r.worker.machine.point = .execute w) (kind : w.kind = .whileLoop)
    (up : r.worker.running = true) :
    (r.steps host 1).worker = { r.worker with machine := r.worker.machine.goto (.check w 0) } ∧
      (r.steps host 1).events = r.events := by
  have onward := Machine.onward_execute (d := d) (t := t) here kind
  have step := fits.steps_silent host (by simp [Machine.demand, here]) up
    (by simp [onward, Machine.goto])
  rwa [onward] at step

theorem Fits.refuses_while (host : Host σ) (fits : r.Fits d t) {next : Nat}
    (here : r.worker.machine.point = .check w next) (up : r.worker.running = true)
    (fails : r.worker.machine.condition d w = false) :
    (r.steps host 1).worker =
        { r.worker with machine := r.worker.machine.goto (.leave w (some Pin.completed)) } ∧
      (r.steps host 1).events = r.events := by
  have onward := Machine.onward_refused (t := t) here fails
  have step := fits.steps_silent host (by simp [Machine.demand, here]) up
    (by simp [onward, Machine.goto])
  rwa [onward] at step

theorem leaves_down (host : Host σ) (document : r.worker.document = d)
    (timing : r.worker.timing = t) (alive : r.worker.isAlive = true) {n : Node} {pin : Option String}
    (here : r.worker.machine.point = .leave n pin) (down : r.worker.running = false) :
    r.EndsWith host (r.events.toList ++ [.notice .cleared]) (.ok .stopped) := by
  have intact := intact_of_isAlive alive
  have worker : r.worker = .halting d t r.worker.machine := by
    change Worker.mk r.worker.document r.worker.timing _ r.worker.running r.worker.crashed = _
    rw [document, timing, down, intact, Worker.halting]
  exact inside_ends host (by rw [here]; rfl) worker

section
variable {lowers : Nat → Bool} (valid : d.Valid) (document : r.worker.document = d)
  (timing : r.worker.timing = t) (fits : r.worker.machine.Fits d)
include valid document timing fits

/-- As long as an interrupted run is undisturbed, a while loop that has begun is under way. -/
theorem loops_interrupted {a k : Nat} {stack : List Frame}
    (holds : Evaluation.boolean d (published stack) w "Condition" false = true)
    (loops : (r.interrupted host lowers a).worker.machine.Loops w stack)
    (undisturbed : (r.interrupted host lowers (a + k)).Undisturbed) :
    (r.interrupted host lowers (a + k)).worker.machine.Loops w stack := by
  rw [(machine_interrupted document timing undisturbed).1]
  exact loops.iterate_onward holds valid (fits_interrupted document timing valid fits host lowers a) k

theorem undisturbed_next {j : Nat} (undisturbed : (r.interrupted host lowers j).Undisturbed)
    (going : (r.interrupted host lowers j).worker.machine.point.isFinished = false) :
    (r.interrupted host lowers (j + 1)).Undisturbed ∨ lowers j = true ∨
      (r.interrupted host lowers j).Disturbed host := by
  cases quiet : lowers j with
  | true => exact .inr (.inl rfl)
  | false =>
    have begun := fits_of_undisturbed document timing valid fits undisturbed
    have next : r.interrupted host lowers (j + 1) = (r.interrupted host lowers j).step host := by
      simp [interrupted, passes, quiet, undisturbed.alive]
    rw [next]
    exact (undisturbed.step host begun going).imp_right .inr

end

end Run

/-- Somebody else may lower the flag between any two steps, and the world within any event. When the
flag is up, a while loop whose condition fails at its entry completes without walking its body. One
whose condition holds there finds it true at every later check, and it is under way until the flag is
lowered or an action fails. Only a lowered flag lets it fire its pin of completion, and then the run
clears the highlights and ends without entering anything. -/
theorem while_loop_never_completes {σ : Type} (host : Host σ) (lowers : Nat → Bool)
    (valid : d.Valid) (t : Timing) (level : Option Log.Level) (running : Bool) (world : σ) :
    let run := (Run.begin d t level running world).interrupted host lowers
    let machine := fun n => (run n).worker.machine
    ∀ i w, (machine i).point = .execute w → w.kind = .whileLoop → (run i).worker.running = true →
      lowers i = false →
      machine (i + 1) = (machine i).goto (.check w 0) ∧ (run (i + 1)).Undisturbed ∧
      ((machine i).condition d w = false → lowers (i + 1) = false →
        machine (i + 2) = (machine i).goto (.leave w (some Pin.completed)) ∧
          (run (i + 2)).worker.running = true ∧ (run (i + 2)).events = (run i).events) ∧
      ((machine i).condition d w = true → ∀ j, i < j →
        ((∃ next, (machine j).point = .check w next) → (machine j).stack = (machine i).stack →
          (machine j).condition d w = true) ∧
        ((run j).Undisturbed → (machine j).Loops w (machine i).stack ∧
          ((run (j + 1)).Undisturbed ∨ lowers j = true ∨ (run j).Disturbed host)) ∧
        ((machine j).point = .leave w (some Pin.completed) →
          (machine j).stack = (machine i).stack → (run j).worker.running = false ∧
            (run j).EndsWith host ((run j).events.toList ++ [.notice .cleared]) (.ok .stopped) ∧
            ∀ k, ∃ n, run (j + k) = (run j).steps host n)) := by
  intro run machine i w here kind up quiet
  have first : (Run.begin d t level running world).worker.machine.Fits d := ⟨rfl, rfl⟩
  have fits : ∀ n, (machine n).Fits d :=
    Run.fits_interrupted (r := Run.begin d t level running world) rfl rfl valid first host lowers
  have alive : ∀ n, (machine n).demand = .nothing → (run n).worker.isAlive = true := fun _ =>
    Run.alive_interrupted host lowers rfl
  have next : ∀ n, lowers n = false → run (n + 1) = (run n).steps host 1 := fun n quiet =>
    Run.interrupted_quiet fun j one => by rwa [Nat.lt_one_iff.1 one]
  have begun : (run i).Undisturbed :=
    ⟨alive i (by rw [Machine.demand, here]), up, by rw [here]; rfl⟩
  obtain ⟨entry, silent⟩ :=
    (Run.fits_of_undisturbed rfl rfl valid first begun).begins_while host here kind up
  rw [← next i quiet] at entry silent
  have checks : machine (i + 1) = (machine i).goto (.check w 0) := congrArg Worker.machine entry
  have check : (machine (i + 1)).point = .check w 0 := by
    rw [checks]
    rfl
  have begins : (run (i + 1)).Undisturbed :=
    ⟨alive (i + 1) (by rw [Machine.demand, check]), by rw [entry]; exact up, by rw [check]; rfl⟩
  refine ⟨checks, begins, ?fails, ?holds⟩
  case fails =>
    intro fails still
    obtain ⟨exit, silent'⟩ := (Run.fits_of_undisturbed rfl rfl valid first begins).refuses_while host
      check begins.up (by rw [entry]; exact fails)
    rw [← next (i + 1) still, entry] at exit
    rw [← next (i + 1) still, silent] at silent'
    exact ⟨congrArg Worker.machine exit, by rw [exit]; exact up, silent'⟩
  case holds =>
    intro holds j later
    obtain ⟨k, rfl⟩ : ∃ k, j = i + 1 + k := ⟨j - (i + 1), by omega⟩
    have around : Evaluation.boolean d (published (machine i).stack) w "Condition" false = true := by
      have read := (fits (i + 1)).condition_check check
      rw [checks] at read
      exact read.symm.trans holds
    have frames : (machine (i + 1)).stack = (machine i).stack := by
      rw [checks]
      rfl
    have loops : (run (i + 1 + k)).Undisturbed →
        (machine (i + 1 + k)).Loops w (machine i).stack :=
      Run.loops_interrupted valid rfl rfl first around (.inl ⟨⟨0, check⟩, frames⟩)
    refine ⟨?again, ?going, ?done⟩
    case again =>
      rintro ⟨index, check⟩ same
      rw [(fits (i + 1 + k)).condition_check check]
      exact same ▸ around
    case going =>
      intro undisturbed
      have under := loops undisturbed
      exact ⟨under, Run.undisturbed_next valid rfl rfl first undisturbed under.isFinished⟩
    case done =>
      intro leaves same
      have going := alive (i + 1 + k) (Machine.demand_leave leaves)
      have down : (run (i + 1 + k)).worker.running = false := by
        rw [← Bool.not_eq_true]
        intro flag
        obtain ⟨index, check⟩ := (loops ⟨going, flag, by rw [leaves]; rfl⟩).checks same
        cases leaves.symm.trans check
      obtain ⟨document, timing⟩ := Run.document_interrupted (r := Run.begin d t level running world)
        rfl rfl host lowers (i + 1 + k)
      exact ⟨down, Run.leaves_down host document timing going leaves down,
        Run.interrupted_down down⟩

def indexed : Document where
  serial := 0
  nodes := [⟨"s", .start, []⟩, ⟨"v", .whileLoop, []⟩, ⟨"w", .whileLoop, []⟩,
    ⟨"l", .loop, [("Iterations", .number (.ofNat 2))]⟩, ⟨"c", .mouseClick, []⟩,
    ⟨"k", .compare, []⟩]
  connections := [⟨"s", Pin.exec, "v", Pin.exec, .exec⟩, ⟨"v", Pin.completed, "w", Pin.exec, .exec⟩,
    ⟨"w", Pin.loopBody, "l", Pin.exec, .exec⟩, ⟨"l", Pin.loopBody, "c", Pin.exec, .exec⟩,
    ⟨"l", Pin.index, "k", "A", .data⟩, ⟨"k", "Result", "w", "Condition", .data⟩]
  start := "s"
  index := {
    exec := [(("s", Pin.exec), "v"), (("v", Pin.completed), "w"), (("w", Pin.loopBody), "l"),
      (("l", Pin.loopBody), "c")]
    data := [(("k", "A"), ("l", Pin.index)), (("w", "Condition"), ("k", "Result"))] }

/-- The first while loop completes at once. What the second reads is false in the second iteration
within its body and true when it checks again. Somebody lowers its flag at this check, where no event
is under way, and only then it fires its pin of completion. -/
theorem indexed_loops_until_lowered :
    let lowers := fun k => k == 36
    let run := (Run.begin indexed {} none true ()).interrupted willing lowers
    let v : Node := ⟨"v", .whileLoop, []⟩
    let w : Node := ⟨"w", .whileLoop, []⟩
    indexed.Valid ∧
      (run 11).worker.machine = (run 9).worker.machine.goto (.leave v (some Pin.completed)) ∧
      (run 30).worker.machine.condition indexed w = false ∧
      (run 36).worker.machine.condition indexed w = true ∧ (run 36).event? = none ∧
      (run 36).worker.machine.Loops w (run 14).worker.machine.stack ∧
      (run 38).worker.machine.point = .leave w (some Pin.completed) ∧
      (run 38).EndsWith willing ((run 38).events.toList ++ [.notice .cleared]) (.ok .stopped) := by
  intro lowers run v w
  have valid : indexed.Valid := rfl
  have never := while_loop_never_completes willing lowers valid {} none true ()
  obtain ⟨-, -, refused, -⟩ := never 9 v (by decide +kernel) rfl (by decide +kernel) rfl
  obtain ⟨-, -, -, held⟩ := never 14 w (by decide +kernel) rfl (by decide +kernel) rfl
  replace held := held (by decide +kernel)
  dsimp only [Nat.reduceAdd] at refused held
  obtain ⟨again, under, -⟩ := held 36 (by decide)
  obtain ⟨-, -, done⟩ := held 38 (by decide)
  dsimp only [run]
  refine ⟨valid, (refused (by decide +kernel) rfl).1, by decide +kernel, ?again, by decide +kernel,
    ?under, by decide +kernel, ?done⟩
  case again => exact again ⟨1, by decide +kernel⟩ (by decide +kernel)
  case under => exact (under ⟨by decide +kernel, by decide +kernel, by decide +kernel⟩).1
  case done => exact (done (by decide +kernel) (by decide +kernel)).2.1

end MacroGraph.Engine
