import MacroGraph.Proofs.Document.Agreement
import MacroGraph.Proofs.Engine.Interruption

namespace MacroGraph.Engine
open Evaluation (Ends)
variable {names : String → Prop} {d e : Document}

/-- A point is at names of a set. -/
def Point.Inside (names : String → Prop) : Point → Prop
  | .arrive id => names id
  | .enter n | .execute n | .iterate n _ _ | .check n _ | .wait n _ _ | .leave n _ => names n.id
  | .request n _ next => names n.id ∧ next.Inside names
  | _ => True

def Note.Inside (names : String → Prop) : Note → Prop
  | .read _ id _ => names id
  | _ => True

theorem Note.inside_of_not_reading {note : Note} (other : note.isReading = false) :
    note.Inside names := by
  cases note with
  | read o id pin => cases other
  | _ => trivial

namespace Machine

/-- A machine is at names of a set, in the bodies of loops with such names. -/
structure Inside (names : String → Prop) (m : Machine) : Prop where
  point : m.point.Inside names
  stack : ∀ f ∈ m.stack, names f.node.id

theorem Executes.inside {n : Node} {p : Point} (executes : Executes n p) (here : names n.id) :
    p.Inside names := by
  cases executes with
  | requests a => exact ⟨here, here⟩
  | _ => exact here

theorem inside_executed (d : Document) {m : Machine} {n : Node} (here : names n.id)
    (stack : ∀ f ∈ m.stack, names f.node.id) :
    (m.executed d n).1.Inside names ∧ ∀ note ∈ (m.executed d n).2, note.Inside names := by
  obtain ⟨goes, stays, _⟩ := executed_eq d m n
  refine ⟨⟨goes ▸ (executes_execution d m.outputs n).inside here, stays ▸ stack⟩, ?_⟩
  intro note mem
  rcases List.mem_append.1 mem with read | other
  · obtain ⟨pin, _, rfl⟩ := List.mem_map.1 read
    exact here
  · exact Note.inside_of_not_reading (not_reading_execution d m.outputs n note other)

theorem Moves.inside (agree : Agree names d e) {t : Timing} {running : Bool} {m after : Machine}
    {notes : List Note} (moves : Moves d t running m after notes) (here : m.Inside names) :
    after.Inside names ∧ ∀ note ∈ notes, note.Inside names := by
  obtain ⟨point, stack⟩ := here
  cases moves with
  | begins here =>
    exact ⟨⟨trivial, stack⟩, by simp [Note.Inside]⟩
  | unrooted | stops | leaves | finishes => exact ⟨⟨trivial, stack⟩, by simp⟩
  | roots n here found =>
    have start : names n.id := Document.id_of_node? found ▸ agree.starts
    exact ⟨⟨start, stack⟩, by simpa [Note.Inside] using start⟩
  | takes id n here up found =>
    rw [here] at point
    exact ⟨⟨by rwa [goto, Point.Inside, Document.id_of_node? found], stack⟩, by simp⟩
  | executes n here up =>
    rw [here] at point
    exact inside_executed d point stack
  | skips _ here | completes _ _ _ here | quits _ _ here =>
    rw [here] at point
    exact ⟨⟨point, stack⟩, by simp⟩
  | iterates n next total body here up more found =>
    rw [here] at point
    exact ⟨⟨agree.leads _ _ _ point found, List.forall_mem_cons.2 ⟨point, stack⟩⟩,
      by simp [Note.Inside]⟩
  | iteratesEmpty n next total here up more missing =>
    rw [here] at point
    exact ⟨⟨point, stack⟩, by simp [Note.Inside]⟩
  | checks n next body here up holds found =>
    rw [here] at point
    exact ⟨⟨agree.leads _ _ _ point found, List.forall_mem_cons.2 ⟨point, stack⟩⟩,
      by simpa [Point.Inside, Note.Inside] using point⟩
  | checksEmpty _ _ here | refuses _ _ here =>
    rw [here] at point
    exact ⟨⟨point, stack⟩, by simpa [Point.Inside, Note.Inside] using point⟩
  | sleeps n remaining pause here up more =>
    rw [here] at point
    exact ⟨⟨⟨point, point⟩, stack⟩, by simp⟩
  | wakes n remaining pause here halted =>
    rw [here] at point
    cases pause with
    | delay => exact ⟨⟨point, stack⟩, by simp⟩
    | repetition => exact ⟨⟨agree.starts, stack⟩, by simp⟩
  | follows n pin id here up found =>
    rw [here] at point
    exact ⟨⟨agree.leads _ _ _ point found, stack⟩, by simp⟩
  | resumesLoop _ _ _ _ _ top | resumesWhile _ _ _ _ top =>
    rw [top] at stack
    obtain ⟨first, below⟩ := List.forall_mem_cons.1 stack
    exact ⟨⟨first, below⟩, by simp⟩
  | pauses n here empty again up found =>
    have start : names n.id := Document.id_of_node? found ▸ agree.starts
    exact ⟨⟨start, stack⟩, by simp [Note.Inside]⟩
  | ends fault here =>
    exact ⟨⟨trivial, stack⟩, by cases fault <;> simp [Note.Inside]⟩

theorem Goes.inside (agree : Agree names d e) {t : Timing} {m after : Machine}
    (goes : Goes d t m after) (here : m.Inside names) : after.Inside names := by
  cases goes with
  | moves moves => exact (moves.inside agree here).1
  | notified demand =>
    obtain ⟨point, stack⟩ := here
    unfold Machine.notified
    cases spot : m.point with
    | enter n =>
      rw [spot] at point
      exact ⟨point, stack⟩
    | clear | finish fault => exact ⟨trivial, stack⟩
    | _ => exact ⟨point, stack⟩
  | answered answer demand =>
    obtain ⟨point, stack⟩ := here
    unfold Machine.answered
    cases spot : m.point with
    | request n a next =>
      rw [spot] at point
      cases answer with
      | ok _ => exact ⟨point.2, stack⟩
      | error cause => exact ⟨trivial, stack⟩
    | _ => cases answer <;> exact ⟨point, stack⟩
  | stays => exact here

section
variable (agree : Agree names d e) (ends : Ends names d) (ends' : Ends names e)
include agree ends ends'

theorem execution_eq (o : Outputs) {n : Node} (here : names n.id) :
    execution d o n = execution e o n := by
  unfold execution Evaluation.number Evaluation.text Evaluation.boolean
  simp only [agree.input_eq ends ends' o here]

omit ends ends' in
theorem body_eq {f : Frame} (here : names f.node.id) (m : Machine) (next : Point) :
    body d m f next = body e m f next := by
  unfold body
  rw [agree.next _ _ here]

theorem boolean_eq (o : Outputs) {n : Node} (here : names n.id) (pin : String) (fallback : Bool) :
    Evaluation.boolean d o n pin fallback = Evaluation.boolean e o n pin fallback := by
  unfold Evaluation.boolean
  rw [agree.input_eq ends ends' o here]

theorem step_eq (t : Timing) (running : Bool) {m : Machine} (here : m.Inside names) :
    m.step d t running = m.step e t running := by
  obtain ⟨point, stack⟩ := here
  unfold step
  cases spot : m.point with
  | begin => simp only [agree.start]
  | root =>
    simp only [← agree.start, ← agree.node d.start agree.starts]
    cases found : d.node? d.start with
    | none => rfl
    | some n =>
      have same : names n.id := Document.id_of_node? found ▸ agree.starts
      simp only [boolean_eq agree ends ends' m.outputs same]
  | arrive id =>
    rw [spot] at point
    simp only [agree.node id point]
  | execute n =>
    rw [spot] at point
    simp only [executed, execution_eq agree ends ends' m.outputs point]
  | iterate n next total =>
    rw [spot] at point
    simp only [iterated, body_eq agree (f := .loop n (next + 1) total) point]
  | check n next =>
    rw [spot] at point
    simp only [checked, boolean_eq agree ends ends' m.outputs point,
      body_eq agree (f := .whileLoop n (next + 1)) point]
  | wait n remaining pause => simp only [waited, afterWait, agree.start]
  | leave n pin =>
    rw [spot] at point
    have next : d.nextExec n.id = e.nextExec n.id := funext fun pin => agree.next n.id pin point
    simp only [next]
  | walked => simp only [returned, ← agree.start, agree.node d.start agree.starts]
  | report fault => simp only [agree.start]
  | clear | enter n | request n a next | finish fault | ended result => rfl

end

end Machine

theorem entries_eq (agree : Agree names d e) (ends : Ends names d) (ends' : Ends names e)
    {note : Note} (here : note.Inside names) : note.entries d = note.entries e := by
  cases note with
  | read o id pin => simp only [Note.entries, agree.inputVisits_eq ends ends' o here]
  | _ => simp only [Note.entries]

namespace Run
variable {σ : Type}

def withDocument (r : Run σ) (e : Document) : Run σ :=
  { r with worker := { r.worker with document := e } }

theorem note_withDocument {r : Run σ} (document : r.worker.document = d) {notes : List Note}
    (same : ∀ note ∈ notes, note.entries d = note.entries e) :
    (r.withDocument e).note notes = (r.note notes).withDocument e := by
  have logs : ∀ (log : Array Log.Entry) (note : Note),
      note ∈ notes.filter (fun n => Log.takes r.level n.level) →
      log.appendList (note.entries e) = log.appendList (note.entries d) :=
    fun log note mem => by rw [same note (List.mem_of_mem_filter mem)]
  simp only [Run.note, withDocument, document, Run.mk.injEq, true_and]
  exact List.foldl_ext _ _ _ logs

theorem advance_withDocument (agree : Agree names d e) (ends : Ends names d) (ends' : Ends names e)
    {w : Worker} (document : w.document = d) (here : w.machine.Inside names) :
    ({ w with document := e } : Worker).advance =
      ({ w.advance.1 with document := e }, w.advance.2) := by
  simp only [Worker.advance, document, ← Machine.step_eq agree ends ends' w.timing w.running here]

/-- At such names both documents take the same step. -/
theorem step_withDocument (agree : Agree names d e) (ends : Ends names d) (ends' : Ends names e)
    (host : Host σ) {r : Run σ} (document : r.worker.document = d)
    (here : r.worker.machine.Inside names) :
    (r.withDocument e).step host = (r.step host).withDocument e := by
  cases demand : r.worker.machine.demand with
  | nothing =>
    have reads : ∀ note ∈ r.worker.advance.2, note.entries d = note.entries e := by
      intro note mem
      have moves := Machine.moves_step d r.worker.timing r.worker.running demand
      refine entries_eq agree ends ends' ((moves.inside agree here).2 note ?_)
      simpa [Worker.advance, document] using mem
    simp only [step, withDocument, demand,
      advance_withDocument agree ends ends' document here]
    exact note_withDocument (r := { r with worker := r.worker.advance.1 }) document reads
  | notify n =>
    have silent : ∀ note ∈ r.worker.machine.notified.2, note.entries d = note.entries e := by
      unfold Machine.notified
      split <;> simp [Note.entries]
    simp only [step, withDocument, demand, Worker.notified]
    exact note_withDocument (r := ({ r with
      worker := (r.worker.notified (host r.world (.notice n)).lowers).1
      world := (host r.world (.notice n)).world
      events := r.events.push (.notice n) } : Run σ).logEntries (host r.world (.notice n)).log)
      document silent
  | act a =>
    simp only [step, withDocument, demand]
    cases (host r.world (.action a)).reply <;> rfl
  | ended result => simp [step, withDocument, demand]

theorem passes_withDocument (agree : Agree names d e) (ends : Ends names d) (ends' : Ends names e)
    (host : Host σ) (lowers : Bool) {r : Run σ} (document : r.worker.document = d)
    (here : r.worker.machine.Inside names) :
    (r.withDocument e).passes host lowers = (r.passes host lowers).withDocument e := by
  unfold passes
  split
  · rfl
  · change (if r.worker.isAlive then _ else _) = _
    split
    · exact step_withDocument agree ends ends' host document here
    · rfl

theorem names_of_event {r : Run σ} (here : r.worker.machine.Inside names) {id : String}
    (enters : Event.notice (.entered id) ∈ r.event?.toList) : names id := by
  have point := here.point
  unfold event? Machine.demand at enters
  cases spot : r.worker.machine.point with
  | enter m =>
    rw [spot] at point enters
    simp only [Option.toList_some, List.mem_singleton, Event.notice.injEq,
      Notice.entered.injEq] at enters
    exact enters ▸ point
  | _ => simp [spot] at enters

section
variable (agree : Agree names d e) (host : Host σ) (lowers : Nat → Bool) (t : Timing)
  (level : Option Log.Level) (running : Bool) (world : σ) (n : Nat)
include agree

/-- A run does not leave a set of names that the connections of its document do not leave. -/
theorem inside_interrupted :
    ((begin d t level running world).interrupted host lowers n).worker.document = d ∧
      ((begin d t level running world).interrupted host lowers n).worker.machine.Inside names := by
  have first : ({} : Machine).Inside names := ⟨trivial, fun f mem => by cases mem⟩
  exact ⟨(document_interrupted rfl rfl host lowers n).1,
    keeps_interrupted (t := t) rfl rfl host lowers _ (Machine.Goes.inside agree) first n⟩

theorem names_of_entered {id : String}
    (entered : Event.notice (.entered id) ∈
      ((begin d t level running world).interrupted host lowers n).events.toList) : names id := by
  induction n with
  | zero => simp [interrupted] at entered
  | succ n ih =>
    rw [interrupted, passes] at entered
    split at entered
    · exact ih entered
    · split at entered
      · rw [events_step, List.mem_append] at entered
        rcases entered with before | now
        · exact ih before
        · exact names_of_event (inside_interrupted agree host lowers t level running world n).2 now
      · exact ih entered

theorem names_of_read {o : Outputs} {id pin : String}
    (read : Note.read o id pin ∈
      ((begin d t level running world).interrupted host lowers n).worker.advance.2) : names id := by
  obtain ⟨document, here⟩ := inside_interrupted agree host lowers t level running world n
  generalize (begin d t level running world).interrupted host lowers n = r at document here read
  rw [Worker.advance, document] at read
  by_cases silent : r.worker.machine.demand = .nothing
  · exact ((Machine.moves_step d _ _ silent).inside agree here).2 _ read
  · rw [Machine.step_of_demand silent] at read
    cases read

end

end Run

/-- Runs of two documents have the same machine, flag, world, events and log at every moment,
whenever their flags are lowered. -/
def SameRuns (d e : Document) : Prop :=
  ∀ {σ : Type} (host : Host σ) (lowers : Nat → Bool) (t : Timing) (level : Option Log.Level)
    (running : Bool) (world : σ) (n : Nat),
    (Run.begin e t level running world).interrupted host lowers n =
      ((Run.begin d t level running world).interrupted host lowers n).withDocument e

theorem sameRuns_of_ends (agree : Agree names d e) (ends : Ends names d) (ends' : Ends names e) :
    SameRuns d e := by
  intro σ host lowers t level running world n
  induction n with
  | zero => rfl
  | succ n ih =>
    obtain ⟨document, here⟩ := Run.inside_interrupted agree host lowers t level running world n
    rw [Run.interrupted, ih, Run.passes_withDocument agree ends ends' host _ document here,
      Run.interrupted]

theorem sameRuns_of_agree (agree : Agree names d e) (valid : d.Valid) (valid' : e.Valid) :
    SameRuns d e :=
  sameRuns_of_ends agree (Evaluation.ends_of_valid valid names)
    (Evaluation.ends_of_valid valid' names)

end MacroGraph.Engine
