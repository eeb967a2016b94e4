import MacroGraph.Proofs.Engine.Trace

/-!
What one step of the machine can do. `Machine.Moves` has a case for each silent step, and all
that a run keeps is proved by these cases.
-/
namespace MacroGraph.Engine

def Note.isReading : Note → Bool
  | .read .. => true
  | _ => false

namespace Machine

/-- The points that executing a node can lead to. -/
inductive Executes (n : Node) : Point → Prop where
  | fires (pin : Option String) : Executes n (.leave n pin)
  | waits (remaining : Duration) (kind : n.kind = .delay) : Executes n (.wait n remaining .delay)
  | requests (a : Action) : Executes n (.request n a (.leave n (some Pin.exec)))
  | loops (total : Nat) (kind : n.kind = .loop) : Executes n (.iterate n 0 total)
  | checks (kind : n.kind = .whileLoop) : Executes n (.check n 0)

theorem executes_execution (d : Document) (o : Outputs) (n : Node) :
    Executes n (execution d o n).point := by
  unfold execution
  cases kind : n.kind with
  | start => exact .fires _
  | delay => exact .waits _ kind
  | mouseClick => exact .requests _
  | mouseMove => exact .requests _
  | keyPress =>
    simp only [pressing]
    split
    · exact .fires _
    · exact .requests _
    · exact .requests _
  | typeString => exact .requests _
  | loop => exact .loops _ kind
  | whileLoop => exact .checks kind
  | ifStatement => exact .fires _
  | numberLiteral => exact .fires _
  | stringLiteral => exact .fires _
  | math => exact .fires _
  | compare => exact .fires _

theorem not_reading_execution (d : Document) (o : Outputs) (n : Node) :
    ∀ note ∈ (execution d o n).notes, note.isReading = false := by
  unfold execution
  cases n.kind with
  | keyPress =>
    simp only [pressing]
    split <;> simp [Note.isReading]
  | _ => simp [Note.isReading]

theorem executed_eq (d : Document) (m : Machine) (n : Node) :
    (m.executed d n).1.point = (execution d m.outputs n).point ∧
      (m.executed d n).1.stack = m.stack ∧
      (m.executed d n).1.outputs =
        if n.kind = .loop then m.outputs.withdraw n.id else m.outputs := by
  unfold executed
  by_cases loop : n.kind = .loop <;> simp [loop, withdrawn, goto]

/-- The silent steps of a machine, with what they note. -/
inductive Moves (d : Document) (t : Timing) (running : Bool) (m : Machine) :
    Machine → List Note → Prop where
  | begins (here : m.point = .begin) : Moves d t running m (m.goto .clear) [.started d.start]
  | unrooted (here : m.point = .root) (missing : d.node? d.start = none) :
    Moves d t running m (m.goto (.finish none)) []
  | roots (n : Node) (here : m.point = .root) (found : d.node? d.start = some n) :
    Moves d t running m
      { m with
        point := .arrive n.id
        repeats := Evaluation.boolean d m.outputs n "Loop Continuously" false }
      [.read m.outputs n.id "Loop Continuously"]
  | takes (id : String) (n : Node) (here : m.point = .arrive id) (up : running = true)
    (found : d.node? id = some n) : Moves d t running m (m.goto (.enter n)) []
  | stops (id : String) (here : m.point = .arrive id)
    (halted : running = false ∨ d.node? id = none) : Moves d t running m (m.goto .walked) []
  | executes (n : Node) (here : m.point = .execute n) (up : running = true) :
    Moves d t running m (m.executed d n).1 (m.executed d n).2
  | skips (n : Node) (here : m.point = .execute n) (down : running = false) :
    Moves d t running m (m.goto (.leave n none)) []
  | iterates (n : Node) (next total : Nat) (body : String) (here : m.point = .iterate n next total)
    (up : running = true) (more : next < total)
    (found : d.nextExec n.id Pin.loopBody = some body) :
    Moves d t running m
      { m with
        point := .arrive body
        stack := .loop n (next + 1) total :: m.stack
        outputs := m.outputs.publish n.id Pin.index (.number (.ofNat next)) }
      [.iteration n.id next total]
  | iteratesEmpty (n : Node) (next total : Nat) (here : m.point = .iterate n next total)
    (up : running = true) (more : next < total)
    (missing : d.nextExec n.id Pin.loopBody = none) :
    Moves d t running m
      { m with
        point := .iterate n (next + 1) total
        outputs := m.outputs.publish n.id Pin.index (.number (.ofNat next)) }
      [.iteration n.id next total]
  | completes (n : Node) (next total : Nat) (here : m.point = .iterate n next total)
    (halted : running = false ∨ total ≤ next) :
    Moves d t running m ((m.withdrawn n).goto (.leave n (some Pin.completed))) []
  | checks (n : Node) (next : Nat) (body : String) (here : m.point = .check n next)
    (up : running = true) (holds : Evaluation.boolean d m.outputs n "Condition" false = true)
    (found : d.nextExec n.id Pin.loopBody = some body) :
    Moves d t running m
      { m with point := .arrive body, stack := .whileLoop n (next + 1) :: m.stack }
      [.read m.outputs n.id "Condition", .whileIteration n.id next]
  | checksEmpty (n : Node) (next : Nat) (here : m.point = .check n next) (up : running = true)
    (holds : Evaluation.boolean d m.outputs n "Condition" false = true)
    (missing : d.nextExec n.id Pin.loopBody = none) :
    Moves d t running m (m.goto (.check n (next + 1)))
      [.read m.outputs n.id "Condition", .whileIteration n.id next]
  | refuses (n : Node) (next : Nat) (here : m.point = .check n next) (up : running = true)
    (fails : Evaluation.boolean d m.outputs n "Condition" false = false) :
    Moves d t running m (m.goto (.leave n (some Pin.completed)))
      [.read m.outputs n.id "Condition"]
  | quits (n : Node) (next : Nat) (here : m.point = .check n next) (down : running = false) :
    Moves d t running m (m.goto (.leave n (some Pin.completed))) []
  | sleeps (n : Node) (remaining : Duration) (pause : Pause)
    (here : m.point = .wait n remaining pause) (up : running = true)
    (more : remaining.nanoseconds ≠ 0) :
    Moves d t running m
      (m.goto (.request n
        (.sleep (Duration.toSeconds ⟨min remaining.nanoseconds t.poll.nanoseconds⟩))
        (.wait n ⟨remaining.nanoseconds - min remaining.nanoseconds t.poll.nanoseconds⟩ pause)))
      []
  | wakes (n : Node) (remaining : Duration) (pause : Pause)
    (here : m.point = .wait n remaining pause)
    (halted : running = false ∨ remaining.nanoseconds = 0) :
    Moves d t running m (m.goto (afterWait d n pause)) []
  | follows (n : Node) (pin id : String) (here : m.point = .leave n (some pin))
    (up : running = true) (found : d.nextExec n.id pin = some id) :
    Moves d t running m (m.goto (.arrive id)) []
  | leaves (n : Node) (pin : Option String) (here : m.point = .leave n pin)
    (halted : running = false ∨ pin.bind (d.nextExec n.id) = none) :
    Moves d t running m (m.goto .walked) []
  | resumesLoop (n : Node) (next total : Nat) (rest : List Frame) (here : m.point = .walked)
    (top : m.stack = .loop n next total :: rest) :
    Moves d t running m { m with point := .iterate n next total, stack := rest } []
  | resumesWhile (n : Node) (next : Nat) (rest : List Frame) (here : m.point = .walked)
    (top : m.stack = .whileLoop n next :: rest) :
    Moves d t running m { m with point := .check n next, stack := rest } []
  | pauses (n : Node) (here : m.point = .walked) (empty : m.stack = []) (again : m.repeats = true)
    (up : running = true) (found : d.node? d.start = some n) :
    Moves d t running m (m.goto (.wait n t.pause .repetition)) [.repeating d.start]
  | finishes (here : m.point = .walked) (empty : m.stack = [])
    (halted : m.repeats = false ∨ running = false ∨ d.node? d.start = none) :
    Moves d t running m (m.goto (.finish none)) []
  | ends (fault : Option NodeFault) (here : m.point = .report fault) :
    Moves d t running m (m.goto (.ended (resultOf running fault)))
      ((fault.map Note.faulted).toList ++ [.finished d.start m.entered (resultOf running fault)])

theorem down_or_none {α : Type} {running : Bool} {found : Option α}
    (halted : ∀ a, running = true → found = some a → False) : running = false ∨ found = none := by
  cases running with
  | false => exact .inl rfl
  | true => exact .inr (Option.eq_none_iff_forall_not_mem.2 fun a h => halted a rfl h)

/-- Every step that demands nothing is one of these. -/
theorem moves_step (d : Document) (t : Timing) (running : Bool) {m : Machine}
    (silent : m.demand = .nothing) :
    Moves d t running m (m.step d t running).1 (m.step d t running).2 := by
  unfold demand at silent
  unfold step
  cases here : m.point with
  | begin => exact .begins here
  | clear => simp [here] at silent
  | root =>
    simp only
    split
    · next missing => exact .unrooted here missing
    · next n found => exact .roots n here found
  | arrive id =>
    simp only
    split
    · next n found => exact .takes id n here rfl found
    · next halted => exact .stops id here (down_or_none halted)
  | enter n => simp [here] at silent
  | execute n =>
    cases running with
    | true => exact .executes n here rfl
    | false => exact .skips n here rfl
  | iterate n next total =>
    simp only [iterated]
    split
    · next goes =>
      obtain ⟨more, up⟩ := by simpa using goes
      simp only [body, Frame.node]
      split
      · next id found => exact .iterates n next total id here up more found
      · next missing => exact .iteratesEmpty n next total here up more missing
    · next halted =>
      refine .completes n next total here ?_
      cases running with
      | false => exact .inl rfl
      | true => exact .inr (by simpa using halted)
  | check n next =>
    simp only [checked]
    split
    · next up =>
      split
      · next holds =>
        simp only [body, Frame.node]
        split
        · next id found => exact .checks n next id here up holds found
        · next missing => exact .checksEmpty n next here up holds missing
      · next fails => exact .refuses n next here up (by simpa using fails)
    · next down => exact .quits n next here (by simpa using down)
  | wait n remaining pause =>
    simp only [waited]
    split
    · next goes =>
      obtain ⟨more, up⟩ := by simpa using goes
      exact .sleeps n remaining pause here up more
    · next halted =>
      refine .wakes n remaining pause here ?_
      cases running with
      | false => exact .inl rfl
      | true => exact .inr (by simpa using halted)
  | request n a next => simp [here] at silent
  | leave n pin =>
    simp only
    split
    · next id found =>
      obtain ⟨name, rfl, found⟩ := Option.bind_eq_some_iff.1 found
      exact .follows n name id here rfl found
    · next halted => exact .leaves n pin here (down_or_none halted)
  | walked =>
    simp only [returned]
    split
    · next n next total rest top => exact .resumesLoop n next total rest here top
    · next n next rest top => exact .resumesWhile n next rest here top
    · next empty =>
      split
      · next n goes found =>
        obtain ⟨again, up⟩ := by simpa using goes
        exact .pauses n here empty again up found
      · next halted =>
        refine .finishes here empty ?_
        cases again : m.repeats with
        | false => exact .inl rfl
        | true => exact .inr (down_or_none fun n up found => halted n (by simp [again, up]) found)
  | finish fault => simp [here] at silent
  | report fault => exact .ends fault here
  | ended result => simp [here] at silent

theorem step_of_demand {d : Document} {t : Timing} {running : Bool} {m : Machine}
    (demands : m.demand ≠ .nothing) : m.step d t running = (m, []) := by
  unfold demand at demands
  unfold step
  split <;> simp_all

theorem request_of_demand {m : Machine} {a : Action} (demand : m.demand = .act a) :
    ∃ n next, m.point = .request n a next := by
  unfold Machine.demand at demand
  cases here : m.point with
  | request n b next =>
    rw [here] at demand
    cases demand
    exact ⟨n, next, rfl⟩
  | _ => simp [here] at demand

/-- A notice clears the highlights at the beginning or at the end, or reports a node. -/
theorem notified_cases {m : Machine} {notice : Notice} (demand : m.demand = .notify notice) :
    (m.point = .clear ∧ notice = .cleared ∧ m.notified.1 = m.goto .root) ∨
      (∃ n, m.point = .enter n ∧ notice = .entered n.id ∧
        m.notified.1 = { m with point := .execute n, entered := m.entered + 1 }) ∨
      ∃ fault, m.point = .finish fault ∧ notice = .cleared ∧
        m.notified.1 = m.goto (.report fault) := by
  unfold Machine.demand at demand
  unfold Machine.notified
  cases here : m.point with
  | clear =>
    rw [here] at demand
    cases demand
    exact .inl ⟨rfl, rfl, rfl⟩
  | enter n =>
    rw [here] at demand
    cases demand
    exact .inr (.inl ⟨n, rfl, rfl, rfl⟩)
  | finish fault =>
    rw [here] at demand
    cases demand
    exact .inr (.inr ⟨fault, rfl, rfl, rfl⟩)
  | _ => simp [here] at demand

/-- What any step of a run does to its machine: a silent step, or going on after an event. -/
inductive Goes (d : Document) (t : Timing) (m : Machine) : Machine → Prop where
  | moves {running : Bool} {after : Machine} {notes : List Note}
    (moves : Moves d t running m after notes) : Goes d t m after
  | notified {notice : Notice} (demand : m.demand = .notify notice) : Goes d t m m.notified.1
  | answered {a : Action} (answer : Except ActionError Unit) (demand : m.demand = .act a) :
    Goes d t m (m.answered answer)
  | stays : Goes d t m m

end Machine

namespace Run
variable {σ : Type} {host : Host σ} {d : Document} {t : Timing}

theorem goes_step (host : Host σ) {r : Run σ} (document : r.worker.document = d)
    (timing : r.worker.timing = t) :
    (r.step host).worker.document = d ∧ (r.step host).worker.timing = t ∧
      Machine.Goes d t r.worker.machine (r.step host).worker.machine := by
  cases demand : r.worker.machine.demand with
  | nothing =>
    have silent := Machine.moves_step d t r.worker.running demand
    rw [step_worker_silent demand, Worker.advance, document, timing]
    exact ⟨rfl, rfl, .moves silent⟩
  | notify n =>
    rw [step_worker_notify demand]
    exact ⟨document, timing, .notified demand⟩
  | act a =>
    rw [step_worker_act demand]
    cases (host r.world (.action a)).reply with
    | done => exact ⟨document, timing, .answered _ demand⟩
    | failed cause => exact ⟨document, timing, .answered _ demand⟩
    | crashed => exact ⟨document, timing, .stays⟩
  | ended result =>
    have same : r.step host = r := by simp [step, demand]
    rw [same]
    exact ⟨document, timing, .stays⟩

/-- Whatever a machine keeps in every step, it keeps along a run. -/
theorem steps_keeps (host : Host σ) (keeps : Machine → Prop)
    (step : ∀ {m after}, Machine.Goes d t m after → keeps m → keeps after)
    {r : Run σ} (document : r.worker.document = d) (timing : r.worker.timing = t)
    (kept : keeps r.worker.machine) (n : Nat) :
    (r.steps host n).worker.document = d ∧ (r.steps host n).worker.timing = t ∧
      keeps (r.steps host n).worker.machine := by
  refine steps_preserves
    (fun r => r.worker.document = d ∧ r.worker.timing = t ∧ keeps r.worker.machine)
    ?_ n ⟨document, timing, kept⟩
  rintro r ⟨document, timing, kept⟩ alive
  obtain ⟨document, timing, goes⟩ := goes_step host document timing
  exact ⟨document, timing, step goes kept⟩

end Run
end MacroGraph.Engine
