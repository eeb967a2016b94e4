import MacroGraph.CommandLine

namespace MacroGraph.Program

def paths : CommandLine.Command → List String
  | .validate path => [path]
  | .run path options => path :: options.settings.toList

/-- Why opening or reading the file of a path failed. -/
def fileError (path : String) : IO.Error → FileError
  | .inappropriateType (some _) _ _ => .notFolder
  | .inappropriateType none _ _ => .isFolder
  | .invalidArgument _ _ _ => if path.toList.contains '\x00' then .nulInName else .nameTooLong
  | .permissionDenied _ _ _ => .denied
  | _ => .missing

def readFiles (paths : List String) : IO FileReader := do
  let found ← paths.mapM fun (path : String) => do
    try
      return (path, Except.ok (← IO.FS.readBinFile path))
    catch e => return (path, Except.error (fileError path e))
  return fun path => (found.lookup path).getD (.error .missing)

def entryLine (e : Log.Entry) : String :=
  String.intercalate " " (e.level.name :: e.message :: e.fields.map fun f => f.1 ++ "=" ++ f.2)

/-- Carries out a run, sleeping where it sleeps. -/
partial def drive (began : Nat) (r : Engine.Run CommandLine.Clock) :
    IO (Engine.Run CommandLine.Clock) := do
  if !r.worker.isAlive then return r
  match r.worker.machine.demand with
  | .act (.sleep x) => IO.sleep (Duration.ofSeconds x).milliseconds.toUInt32
  | _ => pure ()
  let elapsed := (← IO.monoMsNow) - began
  let late := match r.world.stopAt with
    | some t => decide (t.milliseconds ≤ elapsed)
    | none => false
  let r := if late then { r with worker := r.worker.lower } else r
  let r := r.step CommandLine.Clock.host
  for e in r.log do
    IO.println (entryLine e)
  drive began { r with log := #[], events := #[] }

def output (verbose : Bool) (command : CommandLine.Command) : IO CommandLine.Output := do
  let read ← readFiles (paths command)
  match command with
  | .validate path => return CommandLine.validate read path
  | .run path options =>
    match CommandLine.prepare read path options with
    | .error e => return CommandLine.failed e
    | .ok p =>
      let level := if verbose then Log.Level.debug else .info
      return CommandLine.outcome (← drive (← IO.monoMsNow) (p.begin (some level))).worker

end MacroGraph.Program

open MacroGraph in
def main (args : List String) : IO UInt32 := do
  match CommandLine.parse args with
  | none =>
    IO.eprintln "usage: validate PATH | run PATH [--start ID] [--config PATH] [--stop-after SECONDS]"
    return 2
  | some (verbose, command) =>
    let began ← IO.monoMsNow
    let result ← Program.output verbose command
    let took := toString ((← IO.monoMsNow) - began) ++ "ms"
    for line in result.out.dropLast do
      IO.println line
    for line in result.out.getLast? do
      let timed := line.endsWith "Compiled in" || line.endsWith " after"
      IO.println (if timed then line ++ " " ++ took else line)
    for line in result.err do
      IO.eprintln line
    return result.code.toUInt32
