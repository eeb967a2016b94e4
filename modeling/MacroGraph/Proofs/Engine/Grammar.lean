import MacroGraph.Proofs.Engine.Failing
import MacroGraph.Proofs.Engine.Repetition

/-!
The events of a run as a language. `Underway` builds them up event by event, and says of each action
why it may stand where it does. At every moment of a run the point it stands at tells how far it has
come in this language: `Run.told_steps`.
-/
namespace MacroGraph

/-- The kind of node that an action belongs to. A sleep is no node's own: it is part of a wait. -/
def Action.kind? : Action → Option NodeKind
  | .click .. => some .mouseClick
  | .move .. => some .mouseMove
  | .key _ | .combo _ => some .keyPress
  | .type .. => some .typeString
  | .sleep _ => none

def Event.isEntering : Event → Bool
  | .notice (.entered _) => true
  | _ => false

namespace Engine

/-- The start of a macro that starts again. -/
def Continuous (d : Document) (n : Node) : Prop :=
  d.node? d.start = some n ∧ Evaluation.boolean d [] n "Loop Continuously" false = true

/-- What a wait of a node is for after these events: a delay was entered last, or the macro is one
that starts again. -/
def Pauses (d : Document) (events : List Event) (n : Node) : Pause → Prop
  | .delay => d.node? n.id = some n ∧ n.kind = .delay ∧ lastEntered? events = some n.id
  | .repetition => Continuous d n

/-- After these events a node of the kind that an action belongs to was entered, just now. -/
def Owns (d : Document) (events : List Event) (n : Node) (a : Action) : Prop :=
  a.kind? = some n.kind ∧ d.node? n.id = some n ∧
    events.getLast? = some (.notice (.entered n.id))

/-- An action may come after these events: a node does it as soon as it is entered, or it is a sleep
in some wait. -/
def Due (d : Document) (events : List Event) (a : Action) : Prop :=
  (∃ n, Owns d events n a) ∨ a.kind? = none ∧ ∃ n pause, Pauses d events n pause

/-- What a run has done while it is underway, with the replies of the world. -/
inductive Underway (d : Document) : List (Event × Reply) → Prop where
  | clears (reply : Reply) : Underway d [(.notice .cleared, reply)]
  | enters {past : List (Event × Reply)} (n : Node) (reply : Reply) (before : Underway d past)
    (found : d.node? n.id = some n) : Underway d (past ++ [(.notice (.entered n.id), reply)])
  | acts {past : List (Event × Reply)} (a : Action) (reply : Reply) (before : Underway d past)
    (due : Due d (past.map Prod.fst) a) (unfailed : ∀ cause, reply ≠ .failed cause) :
    Underway d (past ++ [(.action a, reply)])

/-- A run is about to be over. When it met a failure, that was the last thing it did. -/
def Walked (d : Document) (past : List (Event × Reply)) : Option NodeFault → Prop
  | none => Underway d past
  | some fault => ∃ before a, past = before ++ [(.action a, .failed fault.cause)] ∧
      Underway d before ∧ Due d (before.map Prod.fst) a

def Cleared (d : Document) (past : List (Event × Reply)) (fault : Option NodeFault) : Prop :=
  ∃ walk reply, past = walk ++ [(.notice .cleared, reply)] ∧ Walked d walk fault

namespace Point

/-- What a run that stands at a point has done. -/
def Told (d : Document) (past : List (Event × Reply)) : Point → Prop
  | .begin | .clear => past = []
  | .finish fault => Walked d past fault
  | .report fault => Cleared d past fault
  | .ended result => ∃ running fault, result = Machine.resultOf running fault ∧ Cleared d past fault
  | _ => Underway d past

/-- The node of a point is the one to be entered, was just entered, or waits with a reason. -/
def Apt (d : Document) (events : List Event) : Point → Prop
  | .enter n => d.node? n.id = some n
  | .execute n => d.node? n.id = some n ∧ events.getLast? = some (.notice (.entered n.id))
  | .wait n _ pause => Pauses d events n pause
  | .request n a next => (Owns d events n a ∧ next = .leave n (some Pin.exec)) ∨
      a.kind? = none ∧ ∃ remaining pause, next = .wait n remaining pause ∧ Pauses d events n pause
  | _ => True

end Point

section
variable {d : Document} {events : List Event} {past : List (Event × Reply)} {n : Node}

theorem lastEntered?_of_getLast? {id : String}
    (last : events.getLast? = some (.notice (.entered id))) : lastEntered? events = some id := by
  obtain ⟨before, rfl⟩ := List.getLast?_eq_some_iff.1 last
  exact lastEntered?_entered before id

theorem Pauses.action {pause : Pause} (pauses : Pauses d events n pause) (a : Action) :
    Pauses d (events ++ [.action a]) n pause := by
  cases pause with
  | delay => exact ⟨pauses.1, pauses.2.1, by rw [lastEntered?_action, pauses.2.2]⟩
  | repetition => exact pauses

theorem Point.Apt.due {a : Action} {next : Point}
    (apt : (Point.request n a next).Apt d events) : Due d events a := by
  rcases apt with ⟨owns, _⟩ | ⟨sleep, _, pause, _, pauses⟩
  · exact .inl ⟨n, owns⟩
  · exact .inr ⟨sleep, n, pause, pauses⟩

theorem Point.Apt.next {a : Action} {next : Point} (apt : (Point.request n a next).Apt d events) :
    next.Apt d (events ++ [.action a]) := by
  rcases apt with ⟨_, rfl⟩ | ⟨_, remaining, pause, rfl, pauses⟩
  · trivial
  · exact pauses.action a

theorem Point.Apt.told_next {a : Action} {next : Point}
    (apt : (Point.request n a next).Apt d events) (underway : Underway d past) :
    next.Told d past := by
  rcases apt with ⟨_, rfl⟩ | ⟨_, remaining, pause, rfl, _⟩ <;> exact underway

end

namespace Machine
variable {d : Document} {t : Timing} {running : Bool} {m after : Machine} {notes : List Note}
  {events : List Event} {past : List (Event × Reply)}

theorem apt_execution {n : Node} (found : d.node? n.id = some n)
    (last : events.getLast? = some (.notice (.entered n.id))) (o : Outputs) :
    (execution d o n).point.Apt d events := by
  unfold execution
  cases kind : n.kind with
  | delay => exact ⟨found, kind, lastEntered?_of_getLast? last⟩
  | mouseClick | mouseMove | typeString => exact .inl ⟨⟨congrArg some kind.symm, found, last⟩, rfl⟩
  | keyPress =>
    simp only [pressing]
    split
    · trivial
    · exact .inl ⟨⟨congrArg some kind.symm, found, last⟩, rfl⟩
    · exact .inl ⟨⟨congrArg some kind.symm, found, last⟩, rfl⟩
  | _ => trivial

theorem Goes.continuous (goes : Goes d t m after) (fits : m.Fits d)
    (settled : m.repeats = true → ∃ n, Continuous d n) :
    after.repeats = true → ∃ n, Continuous d n := by
  intro again
  cases opening : m.point.isOpening with
  | false => exact settled ((goes.repeats fits opening).2 ▸ again)
  | true =>
    cases goes with
    | moves moves =>
      cases moves with
      | roots n here found =>
        have point := fits.point
        have outputs := fits.outputs
        rw [here] at point
        rw [held_eq (by simp [here]), show m.stack = [] from point] at outputs
        rw [outputs] at again
        exact ⟨n, found, again⟩
      | begins | unrooted => exact settled again
      | _ => simp_all [Point.isOpening]
    | notified demand =>
      rcases notified_cases demand with ⟨_, _, goes⟩ | ⟨n, _, _, goes⟩ | ⟨fault, _, _, goes⟩ <;>
        rw [goes] at again <;> exact settled again
    | answered answer demand =>
      obtain ⟨n, next, here⟩ := request_of_demand demand
      rw [here] at opening
      cases opening
    | stays => exact settled again

theorem Moves.apt (moves : Moves d t running m after notes) (point : m.point.Apt d events)
    (settled : m.repeats = true → ∃ n, Continuous d n) : after.point.Apt d events := by
  cases moves with
  | takes id n here up found =>
    cases Document.id_of_node? found
    exact found
  | executes n here up =>
    rw [here] at point
    rw [(executed_eq d m n).1]
    exact apt_execution point.1 point.2 m.outputs
  | sleeps n remaining pause here up more =>
    rw [here] at point
    exact .inr ⟨rfl, _, pause, rfl, point⟩
  | wakes n remaining pause here halted => cases pause <;> trivial
  | pauses n here empty again up found =>
    obtain ⟨l, start, continuous⟩ := settled again
    cases found.symm.trans start
    exact ⟨found, continuous⟩
  | _ => trivial

theorem Executes.told {n : Node} {p : Point} (executes : Executes n p)
    (underway : Underway d past) : p.Told d past := by
  cases executes <;> exact underway

theorem Moves.told (moves : Moves d t running m after notes) (told : m.point.Told d past) :
    after.point.Told d past := by
  cases moves with
  | executes n here up =>
    rw [here] at told
    rw [(executed_eq d m n).1]
    exact (executes_execution d m.outputs n).told told
  | wakes n remaining pause here halted =>
    rw [here] at told
    cases pause <;> exact told
  | ends fault here =>
    rw [here] at told
    exact ⟨running, fault, rfl, told⟩
  | begins here | unrooted here | roots _ here | takes _ _ here | stops _ here | skips _ here
  | iterates _ _ _ _ here | iteratesEmpty _ _ _ here | completes _ _ _ here | checks _ _ _ here
  | checksEmpty _ _ here | refuses _ _ here | quits _ _ here | sleeps _ _ _ here
  | follows _ _ _ here | leaves _ _ here | resumesLoop _ _ _ _ here | resumesWhile _ _ _ here
  | pauses _ here | finishes here =>
    rw [here] at told
    exact told

theorem Moves.entered (moves : Moves d t running m after notes) : after.entered = m.entered := by
  cases moves with
  | executes n here up =>
    unfold executed
    split <;> rfl
  | _ => rfl

theorem told_notified {notice : Notice} (reply : Reply) (demand : m.demand = .notify notice)
    (told : m.point.Told d past) (point : m.point.Apt d events) :
    m.notified.1.point.Told d (past ++ [(.notice notice, reply)]) ∧
      m.notified.1.point.Apt d (events ++ [.notice notice]) ∧
      m.notified.1.entered = m.entered + [Event.notice notice].countP Event.isEntering := by
  rcases notified_cases demand with ⟨here, rfl, goes⟩ | ⟨n, here, rfl, goes⟩ |
      ⟨fault, here, rfl, goes⟩ <;> rw [goes] <;> rw [here] at told point
  · cases told
    exact ⟨.clears reply, trivial, rfl⟩
  · exact ⟨.enters n reply told point, ⟨point, by simp⟩, rfl⟩
  · exact ⟨⟨past, reply, rfl, told⟩, trivial, rfl⟩

theorem told_answered {a : Action} (answer : Except ActionError Unit) (demand : m.demand = .act a)
    (told : m.point.Told d past) (point : m.point.Apt d (past.map Prod.fst)) :
    (m.answered answer).point.Told d (past ++ [(.action a, match answer with
        | .ok _ => .done
        | .error cause => .failed cause)]) ∧
      (m.answered answer).point.Apt d (past.map Prod.fst ++ [.action a]) := by
  obtain ⟨n, next, here⟩ := request_of_demand demand
  rw [here] at told point
  unfold Machine.answered
  rw [here]
  cases answer with
  | ok _ => exact ⟨point.told_next (.acts a .done told point.due nofun), point.next⟩
  | error cause => exact ⟨⟨past, a, rfl, told, point.due⟩, trivial⟩

theorem entered_answered (m : Machine) (answer : Except ActionError Unit) :
    (m.answered answer).entered = m.entered := by
  unfold Machine.answered
  split <;> rfl

end Machine

namespace Run
variable {σ : Type} {host : Host σ} {d : Document} {t : Timing}

def recorded (host : Host σ) (r : Run σ) : List (Event × Reply) :=
  (r.event?.map fun e => (e, (host r.world e).reply)).toList

theorem trace_succ_last (r : Run σ) (n : Nat) : r.trace host (n + 1) = r.trace host n ++
    if (r.steps host n).worker.isAlive then (r.steps host n).recorded host else [] := by
  induction n generalizing r with
  | zero =>
    simp only [trace, steps, List.append_nil, List.nil_append]
    rfl
  | succ n ih =>
    by_cases alive : r.worker.isAlive = true
    · rw [steps_succ alive, trace, if_pos alive, ih, trace, if_pos alive, List.append_assoc]
    · rw [Bool.not_eq_true] at alive
      rw [steps_of_not_isAlive alive, alive]
      simp [trace, alive]

/-- What a run tells by where it stands. -/
structure Tells (d : Document) (t : Timing) (past : List (Event × Reply)) (r : Run σ) : Prop where
  fits : r.Fits d t
  settled : r.worker.machine.repeats = true → ∃ n, Continuous d n
  told : r.worker.machine.point.Told d past
  /-- When a run breaks, the point does not change. -/
  apt : r.worker.crashed = false → r.worker.machine.point.Apt d (past.map Prod.fst)
  entered : r.worker.machine.entered = (past.map Prod.fst).countP Event.isEntering

theorem Tells.step (host : Host σ) (valid : d.Valid) {past : List (Event × Reply)} {r : Run σ}
    (tells : r.Tells d t past) (alive : r.worker.isAlive = true) :
    (r.step host).Tells d t (past ++ r.recorded host) := by
  obtain ⟨fits, settled, told, apt, entered⟩ := tells
  have point := apt (intact_of_isAlive alive)
  have still : (r.step host).Fits d t := by
    have steps := fits.steps host valid 1
    rwa [steps_succ alive] at steps
  have again := (goes_step host fits.document fits.timing).2.2.continuous fits.machine settled
  have onward : (r.step host).worker.machine.point.Told d (past ++ r.recorded host) ∧
      ((r.step host).worker.crashed = false → (r.step host).worker.machine.point.Apt d
        (past.map Prod.fst ++ r.event?.toList)) ∧
      (r.step host).worker.machine.entered =
        r.worker.machine.entered + r.event?.toList.countP Event.isEntering := by
    unfold recorded event?
    cases demand : r.worker.machine.demand with
    | nothing =>
      have moves := Machine.moves_step d t r.worker.running demand
      rw [step_worker_silent demand, Worker.advance, fits.document, fits.timing]
      simp only [Option.map_none, Option.toList_none, List.append_nil]
      exact ⟨moves.told told, fun _ => moves.apt point settled, moves.entered⟩
    | notify notice =>
      rw [step_worker_notify demand]
      obtain ⟨told, apt, counted⟩ :=
        Machine.told_notified (host r.world (.notice notice)).reply demand told point
      exact ⟨told, fun _ => apt, counted⟩
    | act a =>
      rw [step_worker_act demand]
      cases reply : (host r.world (.action a)).reply with
      | done =>
        obtain ⟨told, apt⟩ := Machine.told_answered (.ok ()) demand told point
        simp only [Option.map_some, Option.toList_some, reply]
        exact ⟨told, fun _ => apt, Machine.entered_answered _ _⟩
      | failed cause =>
        obtain ⟨told, apt⟩ := Machine.told_answered (.error cause) demand told point
        simp only [Option.map_some, Option.toList_some, reply]
        exact ⟨told, fun _ => apt, Machine.entered_answered _ _⟩
      | crashed =>
        obtain ⟨n, next, here⟩ := Machine.request_of_demand demand
        rw [here] at told point
        simp only [Option.map_some, Option.toList_some, reply, Worker.answered, here]
        refine ⟨.acts a .crashed told point.due fun cause same => ?_, fun intact => ?_, rfl⟩
        · cases same
        · cases intact
    | ended result => simp [Worker.isAlive, intact_of_isAlive alive, demand] at alive
  have made : (past ++ r.recorded host).map Prod.fst = past.map Prod.fst ++ r.event?.toList := by
    unfold recorded
    cases r.event? <;> simp
  obtain ⟨told, apt, counted⟩ := onward
  rw [← made] at apt
  refine ⟨still, again, told, apt, ?_⟩
  rw [counted, entered, made, List.countP_append]

/-- At every moment of a run the point it stands at says what it has done so far. -/
theorem told_steps (host : Host σ) (valid : d.Valid) (t : Timing) (level : Option Log.Level)
    (running : Bool) (world : σ) (n : Nat) :
    ((begin d t level running world).steps host n).Tells d t
      ((begin d t level running world).trace host n) := by
  induction n with
  | zero => exact ⟨fits_begin d t level running world, nofun, rfl, fun _ => trivial, rfl⟩
  | succ n ih =>
    rw [trace_succ_last]
    split
    · next alive =>
      rw [steps_succ_last alive]
      exact ih.step host valid alive
    · next halted =>
      rw [steps_succ_over (by simpa using halted), List.append_nil]
      exact ih

end Run
end Engine
end MacroGraph
