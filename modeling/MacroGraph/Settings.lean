import MacroGraph.Json.Shape
import MacroGraph.Duration
import MacroGraph.Text.Blank

namespace MacroGraph

/-- Timing of a run, in milliseconds. -/
structure Timing where
  /-- The longest single wait before cancellation is looked at again. -/
  pollInterval : Nat := 100
  /-- The pause between repetitions of a continuous macro. -/
  repeatPause : Nat := 100
  deriving DecidableEq, Repr

namespace Timing
open Json

/-- The increment of a wait, never zero. -/
def poll (t : Timing) : Duration := .ofMilliseconds (max t.pollInterval 1)

def pause (t : Timing) : Duration := .ofMilliseconds t.repeatPause

structure Draft where
  pollInterval : Option Nat := none
  repeatPause : Option Nat := none

def record : Record Draft where
  name := "EngineConfig"
  start := {}
  fields := [
    { name := "poll_interval_ms", aliases := [], optional := true
      isSet := fun d => d.pollInterval.isSome
      read := fun _ t d => t.toNatural.map fun n => { d with pollInterval := some n } },
    { name := "repeat_pause_ms", aliases := [], optional := true
      isSet := fun d => d.repeatPause.isSome
      read := fun _ t d => t.toNatural.map fun n => { d with repeatPause := some n } }]

def Draft.timing (d : Draft) : Timing where
  pollInterval := d.pollInterval.getD 100
  repeatPause := d.repeatPause.getD 100

def read (depth : Nat) (t : Tree) : Except Problem Timing :=
  (record.read depth t).map Draft.timing

theorem poll_pos (t : Timing) : 0 < t.poll.nanoseconds := by
  have : 0 < max t.pollInterval 1 := by omega
  simp only [poll, Duration.ofMilliseconds]
  omega

end Timing

/-- What an editor stores for a hotkey that was never recorded. -/
def unsetHotkey : String := "Not Set"

/-- A hotkey text without blanks at its ends, unless it is empty or unset. -/
def assignedHotkey? (s : String) : Option String :=
  let hotkey := trim s
  if hotkey = "" || hotkey = unsetHotkey then none else some hotkey

structure HotkeySettings where
  emergencyStop : Option String := none
  deriving DecidableEq, Repr

namespace HotkeySettings
open Json

def emergencyStop? (h : HotkeySettings) : Option String :=
  h.emergencyStop.bind assignedHotkey?

structure Draft where
  emergencyStop : Option (Option String) := none

def record : Record Draft where
  name := "HotkeySettings"
  start := {}
  fields := [
    { name := "emergency_stop", aliases := ["emergencyStop"], optional := true
      isSet := fun d => d.emergencyStop.isSome
      read := fun _ t d => t.toText?.map fun s => { d with emergencyStop := some s } }]

def read (depth : Nat) (t : Tree) : Except Problem HotkeySettings :=
  (record.read depth t).map fun d => ⟨d.emergencyStop.getD none⟩

end HotkeySettings

structure Settings where
  timing : Timing := {}
  hotkeys : HotkeySettings := {}
  deriving DecidableEq, Repr

namespace Settings
open Json

structure Draft where
  timing : Option Timing := none
  hotkeys : Option HotkeySettings := none

def record : Record Draft where
  name := "Settings"
  start := {}
  fields := [
    { name := "engine", aliases := [], optional := true, isSet := fun d => d.timing.isSome
      read := fun depth t d => (Timing.read depth t).map fun x => { d with timing := some x } },
    { name := "hotkeys", aliases := [], optional := true, isSet := fun d => d.hotkeys.isSome
      read := fun depth t d =>
        (HotkeySettings.read depth t).map fun x => { d with hotkeys := some x } }]

def read (depth : Nat) (t : Tree) : Except Problem Settings :=
  (record.read depth t).map fun d => ⟨d.timing.getD {}, d.hotkeys.getD {}⟩

def ofText (s : String) : Except Problem Settings := readText read s

def toJson (s : Settings) : Json :=
  .object [
    ("engine", .object [("poll_interval_ms", .ofNat s.timing.pollInterval),
      ("repeat_pause_ms", .ofNat s.timing.repeatPause)]),
    ("hotkeys", .object [("emergency_stop",
      match s.hotkeys.emergencyStop with
      | some h => .text h
      | none => .null)])]

def problemText? (p : Problem) : Option String :=
  p.message?.map ("Invalid settings JSON: " ++ ·)

end Settings
end MacroGraph
