import MacroGraph.Engine.Run

namespace MacroGraph.Backend.DryRun

def truthText (b : Bool) : String := if b then "true" else "false"

/-- What an action logs. Sleeps log nothing. -/
def entries : Action → List Log.Entry
  | .click button double =>
    [⟨.info, "click", [("button", button.name), ("double_click", truthText double)]⟩]
  | .move x y duration =>
    [⟨.info, "move mouse",
      [("x", toString x), ("y", toString y), ("duration_seconds", duration.positional)]⟩]
  | .key name => [⟨.info, "press key", [("key", name)]⟩]
  | .combo names =>
    [⟨.info, "press key combination", [("combo", String.intercalate "+" names)]⟩]
  | .type text delay =>
    [⟨.info, "type text",
      [("chars", toString text.length), ("per_char_delay_seconds", delay.positional)]⟩]
  | .sleep _ => []

def host : Engine.Host Unit := fun _ e =>
  match e with
  | .notice _ => { world := () }
  | .action a => { world := (), log := entries a }

end MacroGraph.Backend.DryRun
