import MacroGraph.Proofs.Document.Index
import MacroGraph.Proofs.Engine.Altered
import MacroGraph.Proofs.Engine.Halting

namespace MacroGraph.Engine
variable {σ : Type}

/-- The same world, which counts events from zero on and lets the action that is event `k`
succeed. -/
def Host.sparingAt (host : Host σ) (k : Nat) : Host (σ × Nat) :=
  host.alteredAt k fun r => { r with reply := .done }

def lastEntered? (events : List Event) : Option String :=
  events.reverse.findSome? fun
    | .notice (.entered id) => some id
    | _ => none

@[simp] theorem lastEntered?_entered (events : List Event) (id : String) :
    lastEntered? (events ++ [.notice (.entered id)]) = some id := by
  simp [lastEntered?]

@[simp] theorem lastEntered?_action (events : List Event) (a : Action) :
    lastEntered? (events ++ [.action a]) = lastEntered? events := by
  simp [lastEntered?]

/-- The node that acts: in the pause before a repetition it is the start, else the node that was
entered last. -/
def Acts (d : Document) (events : List Event) (n : Node) (inPause : Bool) : Prop :=
  if inPause then d.node? d.start = some n
  else d.node? n.id = some n ∧ lastEntered? events = some n.id

theorem Acts.action {d : Document} {events : List Event} {n : Node} {inPause : Bool} (a : Action)
    (acts : Acts d events n inPause) : Acts d (events ++ [.action a]) n inPause := by
  simpa [Acts] using acts

namespace Point

def inPause : Point → Bool
  | .wait _ _ .repetition => true
  | _ => false

def Continues (n : Node) : Point → Prop
  | .leave .. => True
  | .wait m .. => m = n
  | _ => False

/-- The node that a point belongs to is the one that acts. -/
def Accounted (d : Document) (events : List Event) : Point → Prop
  | .enter n => d.node? n.id = some n
  | .execute n => Acts d events n false
  | .wait n remaining pause => Acts d events n (wait n remaining pause).inPause
  | .request n _ next => Acts d events n next.inPause ∧ next.Continues n
  | _ => True

end Point

namespace Machine
variable {d : Document} {t : Timing} {running : Bool} {m after : Machine} {notes : List Note}
  {events : List Event}

theorem Executes.accounted {n : Node} {p : Point} (executes : Executes n p)
    (acts : Acts d events n false) : p.Accounted d events := by
  cases executes with
  | waits remaining kind => exact acts
  | requests a => exact ⟨acts, trivial⟩
  | fires | loops | checks => trivial

theorem Moves.accounted (moves : Moves d t running m after notes)
    (point : m.point.Accounted d events) : after.point.Accounted d events := by
  cases moves with
  | takes id n here up found =>
    cases Document.id_of_node? found
    exact found
  | executes n here up =>
    rw [here] at point
    rw [(executed_eq d m n).1]
    exact (executes_execution d m.outputs n).accounted point
  | sleeps n remaining pause here up more =>
    rw [here] at point
    cases pause <;> exact ⟨point, rfl⟩
  | wakes n remaining pause here halted => cases pause <;> trivial
  | pauses n here empty again up found => exact found
  | _ => trivial

theorem accounted_notified {n : Notice} (demand : m.demand = .notify n)
    (point : m.point.Accounted d events) :
    m.notified.1.point.Accounted d (events ++ [.notice n]) := by
  rcases notified_cases demand with ⟨_, _, goes⟩ | ⟨l, here, rfl, goes⟩ | ⟨fault, _, _, goes⟩ <;>
    rw [goes]
  · trivial
  · rw [here] at point
    exact ⟨point, lastEntered?_entered events l.id⟩
  · trivial

theorem accounted_answered {a : Action} (answer : Except ActionError Unit)
    (demand : m.demand = .act a) (point : m.point.Accounted d events) :
    (m.answered answer).point.Accounted d (events ++ [.action a]) := by
  obtain ⟨n, next, here⟩ := request_of_demand demand
  rw [here] at point
  obtain ⟨acts, continues⟩ := point
  unfold Machine.answered
  rw [here]
  cases answer with
  | error cause => trivial
  | ok _ =>
    cases next with
    | leave l pin => trivial
    | wait l remaining pause =>
      cases continues
      exact acts.action a
    | _ => cases continues

end Machine

namespace Run
variable {host : Host σ} {d : Document} {t : Timing}

theorem accounted_step {r : Run σ} (document : r.worker.document = d)
    (point : r.worker.machine.point.Accounted d r.events.toList) :
    (r.step host).worker.machine.point.Accounted d (r.step host).events.toList := by
  rw [events_step]
  unfold event?
  cases demand : r.worker.machine.demand with
  | nothing =>
    have moves := Machine.moves_step d r.worker.timing r.worker.running demand
    rw [step_worker_silent demand, Worker.advance, document]
    simpa using moves.accounted point
  | notify n =>
    rw [step_worker_notify demand]
    exact Machine.accounted_notified demand point
  | act a =>
    rw [step_worker_act demand]
    cases (host r.world (.action a)).reply with
    | done => exact Machine.accounted_answered (.ok ()) demand point
    | failed cause => exact Machine.accounted_answered (.error cause) demand point
    | crashed =>
      obtain ⟨n, next, here⟩ := Machine.request_of_demand demand
      rw [here] at point
      simp only [Worker.answered, here]
      exact ⟨point.1.action a, point.2⟩
  | ended result => simpa [step, demand] using point

theorem accounted_steps (host : Host σ) (level : Option Log.Level) (running : Bool) (world : σ)
    (n : Nat) :
    let r := (begin d t level running world).steps host n
    r.worker.document = d ∧ r.worker.machine.point.Accounted d r.events.toList := by
  refine steps_preserves (fun r =>
    r.worker.document = d ∧ r.worker.machine.point.Accounted d r.events.toList) ?_ n ⟨rfl, trivial⟩
  rintro r ⟨document, point⟩ alive
  exact ⟨(goes_step host document rfl).1, accounted_step document point⟩

theorem step_spared {r : Run σ} {n : Node} {a : Action} {next : Point}
    (here : r.worker.machine.point = .request n a next) :
    (r.step (host.altered fun r => { r with reply := .done })).worker.machine =
      r.worker.machine.goto next := by
  have demand : r.worker.machine.demand = .act a := by simp [Machine.demand, here]
  rw [step_worker_act demand]
  simp [Host.altered, Worker.answered, Machine.answered, here]

/-- The run finishes at once with the fault of the node that asked. -/
theorem step_failed {r : Run σ} {n : Node} {a : Action} {next : Point} {cause : ActionError}
    (here : r.worker.machine.point = .request n a next)
    (failed : (host r.world (.action a)).reply = .failed cause) :
    (r.step host).worker.crashed = r.worker.crashed ∧
      (r.step host).worker.machine.point = .finish (some ⟨n.id, n.kind.typeName, cause⟩) := by
  have demand : r.worker.machine.demand = .act a := by simp [Machine.demand, here]
  rw [step_worker_act demand, failed]
  simp [Worker.answered, Machine.answered, here, Machine.goto]

end Run

/-- When an action fails, the run has made the same events as if that action succeeded, up to the
action itself; it then clears the highlights and ends with its flag down. So nothing is asked for
again, no node is entered and no other action requested, however deep the run stands in loops or
waits. The result is the cause as it is with the node that asked for the action: the start in the
pause before a repetition, else the node that was entered last. -/
theorem failed_run_is_truncated (host : Host σ) (d : Document) (t : Timing)
    (level : Option Log.Level) (running : Bool) (world : σ) {n : Nat} {a : Action}
    {cause : ActionError} :
    let asking := (Run.begin d t level running world).steps host n
    let spared := fun n => (Run.begin d t level running (world, 0)).steps
      (host.sparingAt asking.events.size) n
    asking.worker.isAlive = true → asking.event? = some (.action a) →
      (host asking.world (.action a)).reply = .failed cause →
      ∃ node next, asking.worker.machine.point = .request node a next ∧
        Acts d asking.events.toList node next.inPause ∧
        ((spared n).worker = asking.worker ∧ (spared n).events = asking.events) ∧
        ((spared (n + 1)).worker.machine = asking.worker.machine.goto next ∧
          (spared (n + 1)).events.toList = asking.events.toList ++ [.action a]) ∧
        (Run.begin d t level running world).EndsWith host
          ((spared (n + 1)).events.toList ++ [.notice .cleared])
          (.error ⟨node.id, node.kind.typeName, cause⟩) := by
  intro asking spared alive event failed
  have demand : asking.worker.machine.demand = .act a := by
    unfold Run.event? at event
    cases demand : asking.worker.machine.demand <;> simp_all
  obtain ⟨node, next, here⟩ := Machine.request_of_demand demand
  have point := (Run.accounted_steps host (d := d) (t := t) level running world n).2
  have acts : Acts d asking.events.toList node next.inPause := by
    rw [here] at point
    exact point.1
  have made : ∀ other : Host σ,
      (asking.step other).events.toList = asking.events.toList ++ [.action a] := by
    intro other
    rw [Run.events_step, event]
    rfl
  have before : spared n = asking.counting :=
    Run.counting_steps (r := Run.begin d t level running world) (Nat.le_refl _)
  have after : spared (n + 1) =
      (asking.step (host.altered fun r => { r with reply := .done })).counting :=
    Run.counting_steps_at _ (r := Run.begin d t level running world) alive
  refine ⟨node, next, here, acts, ?before, ?after, ?ends⟩
  case before =>
    rw [before]
    exact ⟨rfl, rfl⟩
  case after =>
    rw [after]
    exact ⟨Run.step_spared here, made _⟩
  case ends =>
    obtain ⟨intact, finished⟩ := Run.step_failed here failed
    rw [Run.intact_of_isAlive alive] at intact
    have ends := Run.finish_ends host intact finished
    rw [made host, ← Run.steps_succ_last alive] at ends
    rw [after, show ∀ r : Run σ, r.counting.events = r.events from fun _ => rfl, made]
    exact ends.of_steps

def restless : Document where
  serial := 0
  nodes := [⟨"s", .start, [("Loop Continuously", .bool true)]⟩,
    ⟨"l", .loop, [("Iterations", .number .one)]⟩, ⟨"c", .mouseClick, []⟩]
  connections := [⟨"s", Pin.exec, "l", Pin.exec, .exec⟩, ⟨"l", Pin.loopBody, "c", Pin.exec, .exec⟩]
  start := "s"
  index := { exec := [(("s", Pin.exec), "l"), (("l", Pin.loopBody), "c")] }

def sleepless : Host Unit := fun _ e =>
  match e with
  | .action (.sleep _) => { world := (), reply := .failed (.unsupported "sleep") }
  | _ => { world := () }

/-- It faults in the pause before it starts again: the start is to blame, and not the click that was
entered last. -/
theorem restless_faults_at_start :
    Document.build 0 restless.nodes restless.connections "s" = .ok restless ∧
      (Run.begin restless {} none true ()).EndsWith sleepless
        [.notice .cleared, .notice (.entered "s"), .notice (.entered "l"), .notice (.entered "c"),
          .action (.click .left false), .action (.sleep (Duration.toSeconds ⟨100000000⟩)),
          .notice .cleared]
        (.error ⟨"s", "start", .unsupported "sleep"⟩) := by
  have truncated := failed_run_is_truncated sleepless restless {} none true () (n := 21)
    (a := .sleep (Duration.toSeconds ⟨100000000⟩)) (by decide +kernel) (by decide +kernel) rfl
  obtain ⟨node, next, here, -, -, ⟨-, made⟩, ends⟩ := truncated
  have events : ((Run.begin restless {} none true ()).steps sleepless 21).events.toList =
      [.notice .cleared, .notice (.entered "s"), .notice (.entered "l"), .notice (.entered "c"),
        .action (.click .left false)] := by decide +kernel
  obtain ⟨remaining, pausing⟩ : ∃ remaining,
      ((Run.begin restless {} none true ()).steps sleepless 21).worker.machine.point =
        .request ⟨"s", .start, [("Loop Continuously", .bool true)]⟩
          (.sleep (Duration.toSeconds ⟨100000000⟩)) (.wait _ remaining .repetition) := ⟨_, rfl⟩
  cases here.symm.trans pausing
  rw [made, events] at ends
  exact ⟨rfl, ends⟩

end MacroGraph.Engine
