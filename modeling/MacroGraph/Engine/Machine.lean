import MacroGraph.Action
import MacroGraph.Evaluation
import MacroGraph.KeyDescriptor
import MacroGraph.Settings

/-!
The engine as a machine. A run is a walk along exec connections; loops walk their bodies,
and a stack of frames remembers the loops whose bodies are being walked. Between two
events the machine makes small silent steps, each of which looks at the running flag at
most once.
-/
namespace MacroGraph.Engine

/-- A loop whose body is being walked, and the number of its next iteration. -/
inductive Frame where
  | loop (node : Node) (next total : Nat)
  | whileLoop (node : Node) (next : Nat)
  deriving DecidableEq, Repr

def Frame.node : Frame → Node
  | loop n _ _ => n
  | whileLoop n _ => n

inductive Pause where
  | delay
  | repetition
  deriving DecidableEq, Repr

/-- Where a run stands. -/
inductive Point where
  | begin
  /-- Highlights are about to be cleared. -/
  | clear
  /-- The start node is about to be looked up. -/
  | root
  /-- A walk takes up an id. -/
  | arrive (id : String)
  /-- A node is about to be reported as entered. -/
  | enter (node : Node)
  /-- A node was entered and is about to be executed. -/
  | execute (node : Node)
  /-- A bounded loop stands before iteration `next` of `total`. -/
  | iterate (node : Node) (next total : Nat)
  /-- A while loop stands before iteration `next`, its condition unchecked. -/
  | check (node : Node) (next : Nat)
  /-- A wait has this long to go. -/
  | wait (node : Node) (remaining : Duration) (pause : Pause)
  /-- An action of a node is requested; when it succeeds the run goes on at `next`. -/
  | request (node : Node) (action : Action) (next : Point)
  /-- A node was executed and fires a pin or none. -/
  | leave (node : Node) (pin : Option String)
  | walked
  /-- The run is over; highlights are about to be cleared again. -/
  | finish (fault : Option NodeFault)
  /-- All was reported; the result is about to be told. -/
  | report (fault : Option NodeFault)
  | ended (result : RunResult)
  deriving Repr

structure Machine where
  point : Point := .begin
  /-- The loops whose bodies are being walked, innermost first. -/
  stack : List Frame := []
  outputs : Outputs := []
  entered : Nat := 0
  /-- Whether the macro starts again when its walk has ended. -/
  repeats : Bool := false
  deriving Repr

/-- What a machine needs from the world to go on. -/
inductive Demand where
  | nothing
  | notify (notice : Notice)
  | act (action : Action)
  | ended (result : RunResult)
  deriving Repr

inductive Note where
  | started (start : String)
  | executing (node : Node)
  /-- The value of an input was asked for while `outputs` were published. -/
  | read (outputs : Outputs) (id pin : String)
  | iteration (id : String) (index total : Nat)
  | whileIteration (id : String) (index : Nat)
  | noKey (id : String)
  | repeating (start : String)
  | dataNode (id : String)
  | faulted (fault : NodeFault)
  | finished (start : String) (entered : Nat) (result : RunResult)
  deriving Repr

namespace Note

def level : Note → Log.Level
  | started _ => .info
  | executing _ => .debug
  | read .. => .trace
  | iteration .. => .debug
  | whileIteration .. => .debug
  | noKey _ => .debug
  | repeating _ => .debug
  | dataNode _ => .debug
  | faulted _ => .error
  | finished .. => .info

/-- The log entries of a note; reading an input takes one for each evaluation. -/
def entries (d : Document) (note : Note) : List Log.Entry :=
  match note with
  | started start => [⟨note.level, "starting macro run", [("start_node", start)]⟩]
  | executing n =>
    [⟨note.level, "executing node", [("node_id", n.id), ("node_type", n.kind.typeName)]⟩]
  | read outputs id pin =>
    (Evaluation.inputVisits d outputs id pin).map Evaluation.Visit.entry
  | iteration id index total =>
    [⟨note.level, "loop iteration",
      [("node_id", id), ("index", toString index), ("iterations", toString total)]⟩]
  | whileIteration id index =>
    [⟨note.level, "while iteration", [("node_id", id), ("iteration", toString index)]⟩]
  | noKey id => [⟨note.level, "no key recorded, skipping", [("node_id", id)]⟩]
  | repeating start => [⟨note.level, "repeating continuous macro", [("start_node", start)]⟩]
  | dataNode id => [⟨note.level, "data node reached on exec path", [("node_id", id)]⟩]
  | faulted fault => [⟨note.level, "macro run faulted", [("error", fault.message)]⟩]
  | finished start entered result =>
    [⟨note.level, "macro run finished",
      [("start_node", start), ("nodes_executed", toString entered),
        ("outcome", describeResult result)]⟩]

end Note

/-- The largest number of iterations a bounded loop makes. -/
def iterationBound : Nat := (1 <<< 64) - 1

/-- The iterations that a number asks for: without its fraction, none when negative. -/
def iterationsOf (x : Binary64) : Nat := (x.toIntWithin 0 iterationBound).toNat

/-- A coordinate in 32 bits, without its fraction. -/
def coordinate (x : Binary64) : Int := x.toIntWithin (-2147483648) 2147483647

namespace Machine

def demand (m : Machine) : Demand :=
  match m.point with
  | .clear => .notify .cleared
  | .enter n => .notify (.entered n.id)
  | .finish _ => .notify .cleared
  | .request _ a _ => .act a
  | .ended result => .ended result
  | _ => .nothing

def goto (m : Machine) (p : Point) : Machine := { m with point := p }

/-- What executing a node leads to: the point where the run goes on, and what is noted. -/
structure Execution where
  point : Point
  notes : List Note := []

def acting (n : Node) (a : Action) : Point := .request n a (.leave n (some Pin.exec))

def pressing (n : Node) (keys : List String) : Execution :=
  match keys with
  | [] => ⟨.leave n (some Pin.exec), [.noKey n.id]⟩
  | [key] => ⟨acting n (.key key), []⟩
  | keys => ⟨acting n (.combo keys), []⟩

/-- A time span of a node in seconds, never negative. -/
def span (n : Node) (amount : Binary64) (unit : String) : Binary64 :=
  (Duration.inSeconds amount (n.option "Unit" unit)).clampBelow

def inputs : NodeKind → List String
  | .delay => ["Duration"]
  | .mouseMove => ["X", "Y", "Duration"]
  | .keyPress => ["Key"]
  | .typeString => ["Text", "Delay"]
  | .loop => ["Iterations"]
  | .ifStatement => ["Condition"]
  | _ => []

def quarter : Binary64 := .ofDecimal false 25 (-2)

/-- Executes a node whose inputs are read under the published outputs. -/
def execution (d : Document) (o : Outputs) (n : Node) : Execution :=
  let number := Evaluation.number d o n
  match n.kind with
  | .start => ⟨.leave n (some Pin.exec), []⟩
  | .delay =>
    let seconds := Duration.inSeconds (number "Duration" .one) (n.option "Unit" "seconds")
    ⟨.wait n (.ofSeconds seconds) .delay, []⟩
  | .mouseClick =>
    let button := MouseButton.ofName (n.option "Button" "left")
    ⟨acting n (.click button (n.option "Action" "click" == "double_click")), []⟩
  | .mouseMove =>
    let x := coordinate (number "X" .zero)
    let y := coordinate (number "Y" .zero)
    ⟨acting n (.move x y (span n (number "Duration" quarter) "seconds")), []⟩
  | .keyPress => pressing n (KeyDescriptor.parse (Evaluation.text d o n "Key" ""))
  | .typeString =>
    let text := Evaluation.text d o n "Text" ""
    ⟨acting n (.type text (span n (number "Delay" (.ofNat 50)) "milliseconds")), []⟩
  | .loop => ⟨.iterate n 0 (iterationsOf (number "Iterations" (.ofNat 5))), []⟩
  | .whileLoop => ⟨.check n 0, []⟩
  | .ifStatement =>
    let pin := if Evaluation.boolean d o n "Condition" false then Pin.onTrue else Pin.onFalse
    ⟨.leave n (some pin), []⟩
  | .numberLiteral | .stringLiteral | .math | .compare => ⟨.leave n none, [.dataNode n.id]⟩

def withdrawn (m : Machine) (n : Node) : Machine :=
  { m with outputs := m.outputs.withdraw n.id }

def executed (d : Document) (m : Machine) (n : Node) : Machine × List Note :=
  let e := execution d m.outputs n
  let notes := (inputs n.kind).map (Note.read m.outputs n.id) ++ e.notes
  let m := if n.kind = .loop then m.withdrawn n else m
  (m.goto e.point, notes)

def body (d : Document) (m : Machine) (frame : Frame) (next : Point) : Machine :=
  match d.nextExec frame.node.id Pin.loopBody with
  | some id => { m with point := .arrive id, stack := frame :: m.stack }
  | none => m.goto next

/-- Begins an iteration of a bounded loop with its index published, or ends the loop. -/
def iterated (d : Document) (running : Bool) (m : Machine) (n : Node) (next total : Nat) :
    Machine × List Note :=
  if next < total && running then
    let published := m.outputs.publish n.id Pin.index (.number (.ofNat next))
    (body d { m with outputs := published } (.loop n (next + 1) total)
      (.iterate n (next + 1) total), [.iteration n.id next total])
  else ((m.withdrawn n).goto (.leave n (some Pin.completed)), [])

/-- Begins an iteration of a while loop when its condition holds, or ends the loop. -/
def checked (d : Document) (running : Bool) (m : Machine) (n : Node) (next : Nat) :
    Machine × List Note :=
  let done := m.goto (.leave n (some Pin.completed))
  if running then
    let read := Note.read m.outputs n.id "Condition"
    if Evaluation.boolean d m.outputs n "Condition" false then
      (body d m (.whileLoop n (next + 1)) (.check n (next + 1)),
        [read, .whileIteration n.id next])
    else (done, [read])
  else (done, [])

def afterWait (d : Document) (n : Node) : Pause → Point
  | .delay => .leave n (some Pin.exec)
  | .repetition => .arrive d.start

/-- Sleeps for the polling interval or what is left of a wait. -/
def waited (d : Document) (t : Timing) (running : Bool) (m : Machine) (n : Node)
    (remaining : Duration) (pause : Pause) : Machine :=
  if remaining.nanoseconds ≠ 0 && running then
    let slice := min remaining.nanoseconds t.poll.nanoseconds
    m.goto (.request n (.sleep (Duration.toSeconds ⟨slice⟩))
      (.wait n ⟨remaining.nanoseconds - slice⟩ pause))
  else m.goto (afterWait d n pause)

/-- Goes on with the loop that a finished walk belongs to, or with the whole macro. -/
def returned (d : Document) (t : Timing) (running : Bool) (m : Machine) :
    Machine × List Note :=
  match m.stack with
  | .loop n next total :: rest => ({ m with point := .iterate n next total, stack := rest }, [])
  | .whileLoop n next :: rest => ({ m with point := .check n next, stack := rest }, [])
  | [] =>
    match m.repeats && running, d.node? d.start with
    | true, some n => (m.goto (.wait n t.pause .repetition), [.repeating d.start])
    | _, _ => (m.goto (.finish none), [])

/-- The result of a run, given the flag when all was reported. -/
def resultOf (running : Bool) : Option NodeFault → RunResult
  | some fault => .error fault
  | none => .ok (if running then .completed else .stopped)

/-- One silent step under the running flag. Points that demand something stay. -/
def step (d : Document) (t : Timing) (running : Bool) (m : Machine) : Machine × List Note :=
  match m.point with
  | .begin => (m.goto .clear, [.started d.start])
  | .root =>
    match d.node? d.start with
    | none => (m.goto (.finish none), [])
    | some n =>
      ({ m with
          point := .arrive n.id
          repeats := Evaluation.boolean d m.outputs n "Loop Continuously" false },
        [.read m.outputs n.id "Loop Continuously"])
  | .arrive id =>
    match running, d.node? id with
    | true, some n => (m.goto (.enter n), [])
    | _, _ => (m.goto .walked, [])
  | .execute n => if running then m.executed d n else (m.goto (.leave n none), [])
  | .iterate n next total => iterated d running m n next total
  | .check n next => checked d running m n next
  | .wait n remaining pause => (waited d t running m n remaining pause, [])
  | .leave n pin =>
    match running, pin.bind (d.nextExec n.id) with
    | true, some id => (m.goto (.arrive id), [])
    | _, _ => (m.goto .walked, [])
  | .walked => returned d t running m
  | .report fault =>
    let result := resultOf running fault
    (m.goto (.ended result),
      (fault.map Note.faulted).toList ++ [.finished d.start m.entered result])
  | _ => (m, [])

def notified (m : Machine) : Machine × List Note :=
  match m.point with
  | .clear => (m.goto .root, [])
  | .enter n =>
    ({ m with point := .execute n, entered := m.entered + 1 }, [.executing n])
  | .finish fault => (m.goto (.report fault), [])
  | _ => (m, [])

/-- Goes on after an action was answered. A failure ends the run, whatever loops are being
walked. -/
def answered (m : Machine) (answer : Except ActionError Unit) : Machine :=
  match m.point, answer with
  | .request _ _ next, .ok () => m.goto next
  | .request n _ _, .error cause =>
    m.goto (.finish (some ⟨n.id, n.kind.typeName, cause⟩))
  | _, _ => m

end Machine
end MacroGraph.Engine
