import MacroGraph.Backend.DryRun
import MacroGraph.Compile
import MacroGraph.Folder
import MacroGraph.Settings

/-!
The command line: checking a macro file, and running one with actions only logged. A
command is a function of its arguments and of what reading files gives; waiting takes no
time but counts.
-/
namespace MacroGraph

inductive LoadError where
  | file (path : String) (error : FileError)
  | problem (p : Json.Problem)
  deriving Repr

namespace LoadError

/-- The message for a macro file, as far as the problem has one. -/
def macroMessage? : LoadError → Option String
  | file path e =>
    some ("Failed to parse macro JSON: Could not read file '" ++ path ++ "': " ++ e.message)
  | problem p => Definition.problemText? p

def settingsMessage? : LoadError → Option String
  | file path e => some ("Could not read settings file '" ++ path ++ "': " ++ e.message)
  | problem p => Settings.problemText? p

end LoadError

def FileReader.load (read : FileReader) (path : String)
    (ofText : String → Except Json.Problem α) : Except LoadError α :=
  match read.readText path with
  | .error e => .error (.file path e)
  | .ok s => (ofText s).mapError .problem

namespace CommandLine

structure RunOptions where
  start : Option String := none
  settings : Option String := none
  stopAfter : Option Binary64 := none
  deriving Repr

inductive Command where
  | validate (path : String)
  | run (path : String) (options : RunOptions)
  deriving Repr

/-- Arguments taken in from left to right. -/
structure Parsed where
  verbose : Bool := false
  words : List String := []
  options : RunOptions := {}
  deriving Repr

inductive OptionName where
  | start
  | settings
  | stopAfter
  deriving DecidableEq, Repr

def OptionName.ofLong? (name : List Char) : Option OptionName :=
  if name = "start".toList then some .start
  else if name = "config".toList then some .settings
  else if name = "stop-after".toList then some .stopAfter
  else none

def OptionName.ofShort? (c : Char) : Option OptionName :=
  if c = 's' then some .start
  else if c = 'c' then some .settings
  else none

def Parsed.set (p : Parsed) (name : OptionName) (value : String) : Option Parsed :=
  match name with
  | .start => some { p with options := { p.options with start := some value } }
  | .settings => some { p with options := { p.options with settings := some value } }
  | .stopAfter =>
    (Binary64.read? value).map fun x =>
      { p with options := { p.options with stopAfter := some x } }

/-- Options that stand behind one dash. One that takes a value takes the rest, an equals
sign before it aside. Answers the option that still waits for its value. -/
def shortOptions (p : Parsed) : List Char → Option (Parsed × Option OptionName)
  | [] => some (p, none)
  | 'v' :: rest => shortOptions { p with verbose := true } rest
  | c :: rest =>
    match OptionName.ofShort? c, rest with
    | none, _ => none
    | some name, [] => some (p, some name)
    | some name, '=' :: value => (p.set name (String.ofList value)).map fun p => (p, none)
    | some name, value => (p.set name (String.ofList value)).map fun p => (p, none)

/-- An option behind two dashes, its value after an equals sign or in the next argument. -/
def longOption (p : Parsed) (cs : List Char) : Option (Parsed × Option OptionName) :=
  if cs = "verbose".toList then some ({ p with verbose := true }, none)
  else
    match OptionName.ofLong? (cs.takeWhile (· != '=')), cs.dropWhile (· != '=') with
    | none, _ => none
    | some name, [] => some (p, some name)
    | some name, _ :: value => (p.set name (String.ofList value)).map fun p => (p, none)

/-- Takes in arguments; `waiting` is the option whose value comes next, and after `--` all
arguments are words. None when they cannot be understood. -/
def takeArguments (p : Parsed) (waiting : Option OptionName) (plain : Bool) :
    List String → Option Parsed
  | [] => if waiting.isNone then some p else none
  | arg :: rest =>
    match waiting, plain, arg.toList with
    | some name, _, _ =>
      match p.set name arg with
      | none => none
      | some p => takeArguments p none plain rest
    | none, false, ['-', '-'] => takeArguments p none true rest
    | none, false, '-' :: '-' :: cs =>
      match longOption p cs with
      | none => none
      | some (p, waiting) => takeArguments p waiting plain rest
    | none, false, '-' :: c :: cs =>
      match shortOptions p (c :: cs) with
      | none => none
      | some (p, waiting) => takeArguments p waiting plain rest
    | none, _, _ => takeArguments { p with words := p.words ++ [arg] } none plain rest

def Parsed.command? (p : Parsed) : Option Command :=
  match p.words with
  | ["validate", path] => some (.validate path)
  | ["run", path] => some (.run path p.options)
  | _ => none

/-- The command of the arguments, and whether it is to log more. -/
def parse (args : List String) : Option (Bool × Command) :=
  (takeArguments {} none false args).bind fun p => p.command?.map fun c => (p.verbose, c)

structure Output where
  code : Nat := 0
  out : List String := []
  err : List String := []
  deriving DecidableEq, Repr

def failed (message : String) : Output := ⟨1, [], ["", "Error: " ++ message]⟩

/-- The message of a macro file's problem; a malformed text has no more to say. -/
def loadMessage (e : LoadError) : String := e.macroMessage?.getD "Failed to parse macro JSON"

def settingsMessage (e : LoadError) : String :=
  e.settingsMessage?.getD "Invalid settings JSON"

def loadDocument (read : FileReader) (path : String) (start : Option String) :
    Except String Document :=
  match read.load path Definition.ofText with
  | .error e => .error ("Failed to load '" ++ path ++ "': " ++ loadMessage e)
  | .ok d =>
    match Compile.document .standard 0 { d with start := start.getD d.start } with
    | .error e => .error ("Invalid macro: " ++ e.message)
    | .ok document => .ok document

def describe (path : String) (d : Document) : List String :=
  let exec := (d.connections.filter Connection.isExec).length
  [ "Macro '" ++ path ++ "' is valid.",
    "  -> Start node:       " ++ d.start,
    "  -> Nodes:            " ++ toString d.nodes.length,
    "  -> Exec connections: " ++ toString exec,
    "  -> Data connections: " ++ toString (d.connections.length - exec),
    "  -> Compiled in" ]

def validate (read : FileReader) (path : String) : Output :=
  match loadDocument read path none with
  | .error e => failed e
  | .ok d => { out := describe path d }

/-- The time after which a run is stopped; times that are negative or not finite are
ignored. -/
def stopTime? (x : Option Binary64) : Option Duration :=
  (x.filter fun x => x.isFinite && Binary64.zero.le x).map Duration.ofSeconds

/-- A clock that sleeps move on, and the time at which it lowers the running flag. -/
structure Clock where
  now : Duration := .zero
  stopAt : Option Duration := none
  deriving Repr

def Clock.host : Engine.Host Clock := fun c e =>
  match e with
  | .notice _ => { world := c }
  | .action (.sleep x) =>
    let now : Duration := ⟨c.now.nanoseconds + (Duration.ofSeconds x).nanoseconds⟩
    { world := { c with now }
      lowers := match c.stopAt with
        | some t => decide (t.nanoseconds ≤ now.nanoseconds)
        | none => false }
  | .action a => { world := c, log := Backend.DryRun.entries a }

structure Prepared where
  document : Document
  timing : Timing
  stopAt : Option Duration

def Prepared.begin (p : Prepared) (level : Option Log.Level) : Engine.Run Clock :=
  ⟨{ document := p.document, timing := p.timing }, { stopAt := p.stopAt }, level, #[], #[]⟩

/-- The steps that a run makes before a stop at a time: one in each microsecond, and some
while the stop is being arranged. -/
def stepsBefore (t : Duration) : Nat := 10000 + t.nanoseconds / 1000

/-- Runs to the end, within a limit on steps. A run that is to be stopped at a time is
stopped when it has made the steps of that time, even if it never sleeps. -/
def Prepared.finish (p : Prepared) (limit : Nat) : Engine.Run Clock :=
  match p.stopAt with
  | none => (p.begin none).steps Clock.host limit
  | some t =>
    let run := (p.begin none).steps Clock.host (min limit (stepsBefore t))
    { run with worker := run.worker.lower }.steps Clock.host limit

def prepare (read : FileReader) (path : String) (options : RunOptions) :
    Except String Prepared :=
  let settings : Except LoadError Settings :=
    match options.settings with
    | some path => read.load path Settings.ofText
    | none => .ok {}
  match settings with
  | .error e => .error ("Failed to load settings: " ++ settingsMessage e)
  | .ok settings =>
    match loadDocument read path options.start with
    | .error e => .error e
    | .ok d => .ok ⟨d, settings.timing, stopTime? options.stopAfter⟩

def outcome (w : Engine.Worker) : Output :=
  match w.result? with
  | some (.ok outcome) => { out := ["", "Macro " ++ outcome.name ++ " after"] }
  | some (.error f) => failed ("Macro failed: " ++ f.message)
  | none => { out := ["", "No macro was running"] }

def run (limit : Nat) (read : FileReader) (path : String) (options : RunOptions) : Output :=
  match prepare read path options with
  | .error e => failed e
  | .ok p => outcome (p.finish limit).worker

/-- Carries out a command, a run within a limit on steps. -/
def execute (limit : Nat) (read : FileReader) : Command → Output
  | .validate path => validate read path
  | .run path options => run limit read path options

end CommandLine
end MacroGraph
