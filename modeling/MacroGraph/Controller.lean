import MacroGraph.Engine.Run

/-!
The controller owns the single active run. Every decision to start or stop a run looks at
the slot of the active run once, so that two callers cannot both find it free.
-/
namespace MacroGraph

inductive ControlAction where
  | started
  | stopped
  /-- Another run is active; nothing was started or stopped. -/
  | refused (active : String)
  deriving DecidableEq, Repr

def ControlAction.describe : ControlAction → String
  | started => "Started"
  | stopped => "Stopped"
  | refused active => "Refused \x7b active_start_node: " ++ quoted active ++ " \x7d"

inductive RunFailure where
  | crashed
  | fault (f : NodeFault)
  deriving DecidableEq, Repr

def RunFailure.message : RunFailure → String
  | crashed => "The macro worker thread panicked"
  | fault f => f.message

/-- Why there is no thread for a run. -/
inductive SpawnFailure where
  /-- The system spawned none. -/
  | unspawned (cause : String)
  /-- Its name had a zero character in it, and the request broke down. -/
  | misnamed
  deriving DecidableEq, Repr

/-- The slot of the active run. It keeps a run that has ended until its result is
collected. -/
structure Controller where
  timing : Timing := {}
  slot : Option Engine.Worker := none
  deriving Repr

namespace Controller

def active? (c : Controller) : Option Engine.Worker := c.slot.filter fun w => w.isAlive

def activeStart? (c : Controller) : Option String :=
  c.active?.map fun w => w.document.start

def isRunning (c : Controller) : Bool := c.active?.isSome

def runs (w : Engine.Worker) (d : Document) : Bool :=
  w.document.isCopyOf d && w.document.start == d.start

/-- The result of a run that has ended. -/
def collected (w : Engine.Worker) : Except RunFailure Outcome :=
  match w.result? with
  | some (.ok outcome) => .ok outcome
  | some (.error f) => .error (.fault f)
  | none => .error .crashed

/-- Takes the run that ended before out of the slot, to collect its result. -/
def vacate (c : Controller) : Controller × List Log.Entry :=
  ({ c with slot := none },
    match c.slot.map collected with
    | some (.error e) =>
      [⟨.warn, "previous macro run ended with an error", [("error", e.message)]⟩]
    | _ => [])

section
variable {ε : Type}

/-- Puts a new run into the slot when the system spawns a thread for it. The run that ended before
is collected first, whether there is a thread or not. -/
def launch (c : Controller) (d : Document) (thread : Except ε Unit) :
    Except ε ControlAction × Controller × List Log.Entry :=
  let (c, log) := c.vacate
  match thread with
  | .ok () =>
    (.ok .started, { c with slot := some { document := d, timing := c.timing } },
      log ++ [⟨.info, "macro started", [("start_node", d.start)]⟩])
  | .error failure => (.error failure, c, log)

def refuse (c : Controller) (w : Engine.Worker) (d : Document) (reason : String) :
    Except ε ControlAction × Controller × List Log.Entry :=
  (.ok (.refused w.document.start), c,
    [⟨.warn, reason, [("requested", d.start), ("active", w.document.start)]⟩])

def start (c : Controller) (d : Document) (thread : Except ε Unit) :
    Except ε ControlAction × Controller × List Log.Entry :=
  match c.active? with
  | some w => c.refuse w d "a macro is already running"
  | none => c.launch d thread

def toggle (c : Controller) (d : Document) (thread : Except ε Unit) :
    Except ε ControlAction × Controller × List Log.Entry :=
  match c.active? with
  | none => c.launch d thread
  | some w =>
    if runs w d then
      (.ok .stopped, { c with slot := some w.lower },
        [⟨.info, "macro toggled off", [("start_node", w.document.start)]⟩])
    else c.refuse w d "refusing toggle while another macro is running"

end

/-- What was done, where the system always spawns a thread. -/
def done : Except Empty ControlAction → ControlAction
  | .ok action => action

def stop (c : Controller) : Bool × Controller × List Log.Entry :=
  match c.active? with
  | some w =>
    (true, { c with slot := some w.lower },
      [⟨.info, "macro stop requested", [("start_node", w.document.start)]⟩])
  | none => (false, c, [])

def emergencyStop (c : Controller) : Controller × List Log.Entry :=
  match c.stop with
  | (true, c, log) => (c, log ++ [⟨.warn, "emergency stop activated", []⟩])
  | (false, c, log) => (c, log)

inductive Waiting where
  | nothing
  | pending
  | collected (result : Except RunFailure Outcome)
  deriving Repr

/-- Looks once for a run that has ended, and collects its result. -/
def poll (c : Controller) : Waiting × Controller :=
  match c.slot with
  | none => (.nothing, c)
  | some w =>
    if w.isAlive then (.pending, c) else (.collected (collected w), { c with slot := none })

end Controller
end MacroGraph
