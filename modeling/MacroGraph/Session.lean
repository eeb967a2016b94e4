import MacroGraph.Backend.Recorder
import MacroGraph.Controller
import MacroGraph.Hotkey

/-!
Sessions: a controller with hotkeys over one recorder. The worker of a run is held in each
action until a permit is there; between two commands it is held or has ended.
-/
namespace MacroGraph

structure Session where
  controller : Controller := {}
  bindings : Bindings := {}
  recorder : Backend.Recorder
  /-- Actions that are let through. -/
  permits : Nat := 0
  /-- Whether all actions are let through. -/
  gateOpen : Bool := false
  /-- Whether the worker is held in an action that was recorded. -/
  held : Bool := false
  level : Option Log.Level := none
  events : Array Event := #[]
  controlLog : Array Log.Entry := #[]
  workerLog : Array Log.Entry := #[]

namespace Session

def logged (s : Session) (entries : List Log.Entry) : Session :=
  { s with controlLog := s.controlLog.appendList (Log.taken s.level entries) }

def noted (s : Session) (d : Document) (notes : List Engine.Note) : Session :=
  let kept := notes.filter fun n => Log.takes s.level n.level
  { s with workerLog := kept.foldl (fun log n => log.appendList (n.entries d)) s.workerLog }

def withWorker (s : Session) (w : Engine.Worker) : Session :=
  { s with controller := { s.controller with slot := some w } }

/-- One step of the worker; none when it is held or has ended. -/
def step? (s : Session) : Option Session :=
  match s.controller.active? with
  | none => none
  | some w =>
    match w.machine.demand with
    | .nothing =>
      let (w, notes) := w.advance
      some ((s.withWorker w).noted w.document notes)
    | .notify n =>
      let reaction := Backend.Recorder.host s.recorder (.notice n)
      let (w, notes) := w.notified reaction.lowers
      some ({ s.withWorker w with
              recorder := reaction.world, events := s.events.push (.notice n) }.noted
        w.document notes)
    | .act a =>
      if !s.held then some { s with held := true, events := s.events.push (.action a) }
      else if s.gateOpen || s.permits ≠ 0 then
        let reaction := Backend.Recorder.host s.recorder (.action a)
        let w := w.answered reaction.lowers reaction.reply
        some { s.withWorker w with
          recorder := reaction.world, held := false
          permits := if s.gateOpen then s.permits else s.permits - 1 }
      else none
    | .ended _ => none

def settle : Nat → Session → Session
  | 0, s => s
  | steps + 1, s =>
    match s.step? with
    | some s => settle steps s
    | none => s

inductive Press where
  | ignored
  | handled
  deriving DecidableEq, Repr

def start (s : Session) (d : Document) : ControlAction × Session :=
  let (action, c, log) := s.controller.start d (.ok () : Except Empty Unit)
  (Controller.done action, { s with controller := c }.logged log)

def toggle (s : Session) (d : Document) : ControlAction × Session :=
  let (action, c, log) := s.controller.toggle d (.ok () : Except Empty Unit)
  (Controller.done action, { s with controller := c }.logged log)

def toggleAll (s : Session) : List Document → List ControlAction × Session
  | [] => ([], s)
  | d :: rest =>
    let (action, s) := s.toggle d
    let (actions, s) := s.toggleAll rest
    (action :: actions, s)

def stop (s : Session) : Bool × Session :=
  let (stopped, c, log) := s.controller.stop
  (stopped, { s with controller := c }.logged log)

def emergencyStop (s : Session) : Session :=
  let (c, log) := s.controller.emergencyStop
  { s with controller := c }.logged log

def handledEntry (action : ControlAction) : Log.Entry :=
  match action with
  | .refused active =>
    ⟨.warn, "hotkey ignored, another macro is running", [("active", active)]⟩
  | action => ⟨.debug, "hotkey handled", [("action", action.describe)]⟩

def press (s : Session) (hotkey : String) : Press × Session :=
  match s.bindings.get? hotkey with
  | none =>
    (.ignored, s.logged [⟨.debug, "ignoring unbound hotkey", [("hotkey", hotkey)]⟩])
  | some .emergencyStop => (.handled, s.emergencyStop)
  | some (.toggle d) =>
    let (action, s) := s.toggle d
    (.handled, s.logged [handledEntry action])

def rebind (s : Session) (b : Bindings) : Session :=
  { s with bindings := b }.logged
    [⟨.info, "hotkey bindings updated", [("hotkeys", toString b.size)]⟩]

def release (s : Session) (permits : Nat) : Session := { s with permits }

/-- Lets all actions through until the run has ended, and collects its result. -/
def wait (steps : Nat) (s : Session) : Controller.Waiting × Session :=
  let s := settle steps { s with gateOpen := true }
  let (found, c) := s.controller.poll
  (found, { s with controller := c, gateOpen := false, permits := 0 })

def fresh (s : Session) : Session :=
  { s with events := #[], controlLog := #[], workerLog := #[] }

end Session
end MacroGraph
