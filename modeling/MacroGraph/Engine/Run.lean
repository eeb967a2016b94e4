import MacroGraph.Engine.Machine

/-!
Runs: a machine in a world. The world answers each event, and with any event it may lower
the running flag.
-/
namespace MacroGraph.Engine

/-- How the world answers an action. A crash leaves the run without a result. -/
inductive Reply where
  | done
  | failed (cause : ActionError)
  | crashed
  deriving DecidableEq, Repr

structure Reaction (σ : Type) where
  world : σ
  lowers : Bool := false
  reply : Reply := .done
  log : List Log.Entry := []

/-- A world: how its state reacts to events. -/
abbrev Host (σ : Type) := σ → Event → Reaction σ

structure Worker where
  document : Document
  timing : Timing
  machine : Machine := {}
  running : Bool := true
  crashed : Bool := false
  deriving Repr

namespace Worker

def isAlive (w : Worker) : Bool :=
  match w.crashed, w.machine.demand with
  | true, _ => false
  | false, .ended _ => false
  | false, _ => true

/-- The result of a run that has ended without a crash. -/
def result? (w : Worker) : Option RunResult :=
  match w.crashed, w.machine.demand with
  | false, .ended r => some r
  | _, _ => none

def lower (w : Worker) : Worker := { w with running := false }

def advance (w : Worker) : Worker × List Note :=
  let (m, notes) := w.machine.step w.document w.timing w.running
  let running := match m.point with
    | .ended _ => false
    | _ => w.running
  ({ w with machine := m, running }, notes)

def notified (w : Worker) (lowers : Bool) : Worker × List Note :=
  let (m, notes) := w.machine.notified
  ({ w with machine := m, running := w.running && !lowers }, notes)

def answered (w : Worker) (lowers : Bool) (reply : Reply) : Worker :=
  let running := w.running && !lowers
  match reply with
  | .done => { w with machine := w.machine.answered (.ok ()), running }
  | .failed cause => { w with machine := w.machine.answered (.error cause), running }
  | .crashed => { w with crashed := true, running }

end Worker

/-- A run in its world, with the events and the log so far. -/
structure Run (σ : Type) where
  worker : Worker
  world : σ
  level : Option Log.Level := none
  events : Array Event := #[]
  log : Array Log.Entry := #[]

namespace Run

/-- Logs notes; those of a level that the log does not take are not worked out. -/
def note (r : Run σ) (notes : List Note) : Run σ :=
  let kept := notes.filter fun n => Log.takes r.level n.level
  { r with log := kept.foldl (fun log n => log.appendList (n.entries r.worker.document)) r.log }

def logEntries (r : Run σ) (entries : List Log.Entry) : Run σ :=
  { r with log := r.log.appendList (Log.taken r.level entries) }

def step (host : Host σ) (r : Run σ) : Run σ :=
  match r.worker.machine.demand with
  | .nothing =>
    let (w, notes) := r.worker.advance
    { r with worker := w }.note notes
  | .notify n =>
    let reaction := host r.world (.notice n)
    let (w, notes) := r.worker.notified reaction.lowers
    ({ r with worker := w, world := reaction.world,
              events := r.events.push (.notice n) }.logEntries reaction.log).note notes
  | .act a =>
    let reaction := host r.world (.action a)
    { r with worker := r.worker.answered reaction.lowers reaction.reply,
             world := reaction.world,
             events := r.events.push (.action a) }.logEntries reaction.log
  | .ended _ => r

def steps (host : Host σ) : Nat → Run σ → Run σ
  | 0, r => r
  | steps + 1, r => if r.worker.isAlive then Run.steps host steps (r.step host) else r

end Run
end MacroGraph.Engine
