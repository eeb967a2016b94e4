import MacroGraph.Hotkey
import MacroGraph.Proofs.Canvas
import MacroGraph.Proofs.Engine.SameRuns
import MacroGraph.Proofs.Text.Blank

/-!
Hotkeys of two macros on one canvas. A hotkey of one of them is bound exactly when the other one
passes the checks that are made of the whole canvas: `bound_beside_iff_sound`.
-/
namespace MacroGraph

namespace Bindings

theorem trim_of_assignedHotkey? {s hotkey : String} (h : assignedHotkey? s = some hotkey) :
    trim hotkey = hotkey := by
  unfold assignedHotkey? at h
  simp only [Option.ite_none_left_eq_some, Option.some.injEq] at h
  rw [← h.2, trim_trim]

theorem mem_hotkeyStarts_iff {d : Definition} {n : NodeEntry} {hotkey : String} :
    (n, hotkey) ∈ hotkeyStarts d ↔ n ∈ d.nodes ∧ NodeKind.ofTypeName? n.typeName = some .start ∧
      hotkeyOf? ((n.values.lookup hotkeyField).map Value.ofJson) = some hotkey := by
  simp only [hotkeyStarts, List.mem_filterMap]
  constructor
  · rintro ⟨m, mem, made⟩
    split at made
    · next start =>
      obtain ⟨h, assigned, same⟩ := Option.map_eq_some_iff.1 made
      cases same
      exact ⟨mem, start, assigned⟩
    · cases made
  · rintro ⟨mem, start, assigned⟩
    exact ⟨n, mem, by simp [start, assigned]⟩

theorem trim_of_mem_hotkeyStarts {d : Definition} {e : NodeEntry × String}
    (mem : e ∈ hotkeyStarts d) : trim e.2 = e.2 :=
  trim_of_assignedHotkey? (mem_hotkeyStarts_iff.1 mem).2.2

/-- What a hotkey is bound to is the macro of a start with that hotkey. -/
theorem of_get?_bindEntries {d : Definition} {entries : List (NodeEntry × String)} {serial : Nat}
    {b : Bindings} {hotkey : String} {action : HotkeyAction}
    (bound : (bindEntries d serial b entries).get? hotkey = some action) :
    b.get? hotkey = some action ∨ ∃ e ∈ entries, trim e.2 = trim hotkey ∧ ∃ s rooted,
      Compile.document .standard s (rootedAt d e.1) = .ok rooted ∧ action = .toggle rooted := by
  induction entries generalizing serial b with
  | nil => exact .inl bound
  | cons first rest ih =>
    obtain ⟨n, h⟩ := first
    unfold bindEntries at bound
    split at bound
    · next rooted compiled =>
      rcases ih bound with before | ⟨e, mem, found⟩
      · rw [get?_bind] at before
        split at before
        · next same =>
          cases before
          exact .inr ⟨(n, h), List.mem_cons_self, same.symm, serial, rooted, compiled, rfl⟩
        · exact .inl before
      · exact .inr ⟨e, List.mem_cons_of_mem _ mem, found⟩
    · rcases ih bound with before | ⟨e, mem, found⟩
      · exact .inl before
      · exact .inr ⟨e, List.mem_cons_of_mem _ mem, found⟩

theorem isSome_get?_bind {b : Bindings} {h hotkey : String} {action : HotkeyAction} :
    ((b.bind h action).get? hotkey).isSome = true ↔
      trim hotkey = trim h ∨ (b.get? hotkey).isSome = true := by
  rw [get?_bind]
  split
  · next same => simp [same]
  · next other => simp [other]

/-- A hotkey is bound when a start with that hotkey compiles. -/
theorem isSome_get?_bindEntries {d : Definition} {entries : List (NodeEntry × String)}
    {serial : Nat} {b : Bindings} {hotkey : String}
    (binds : (b.get? hotkey).isSome = true ∨ ∃ e ∈ entries, trim e.2 = trim hotkey ∧
      ∀ s, ∃ rooted, Compile.document .standard s (rootedAt d e.1) = .ok rooted) :
    ((bindEntries d serial b entries).get? hotkey).isSome = true := by
  induction entries generalizing serial b with
  | nil => simpa [bindEntries] using binds
  | cons first rest ih =>
    obtain ⟨n, h⟩ := first
    unfold bindEntries
    split
    · next rooted compiled =>
      apply ih
      rw [isSome_get?_bind]
      rcases binds with before | ⟨e, mem, same, compiles⟩
      · exact .inl (.inr before)
      · rcases List.mem_cons.1 mem with rfl | mem
        · exact .inl (.inl same.symm)
        · exact .inr ⟨e, mem, same, compiles⟩
    · next failure failed =>
      apply ih
      rcases binds with before | ⟨e, mem, same, compiles⟩
      · exact .inl before
      · rcases List.mem_cons.1 mem with rfl | mem
        · obtain ⟨rooted, compiled⟩ := compiles serial
          rw [failed] at compiled
          cases compiled
        · exact .inr ⟨e, mem, same, compiles⟩

theorem get?_ofDefinition {serial : Nat} {d : Definition} {settings : HotkeySettings}
    {hotkey : String} (plain : trim hotkey = hotkey)
    (free : settings.emergencyStop? ≠ some hotkey) :
    (ofDefinition serial d settings).get? hotkey =
      (bindEntries d serial {} (hotkeyStarts d)).get? hotkey := by
  unfold ofDefinition bindEmergencyStop
  split
  · next stop assigned =>
    obtain ⟨s, _, made⟩ := Option.bind_eq_some_iff.1 assigned
    rw [get?_bind, trim_of_assignedHotkey? made, plain, if_neg]
    rintro rfl
    exact free assigned
  · rfl

end Bindings

open Bindings Engine

theorem Canvas.mem_hotkeyStarts_iff {d e whole : Definition} (canvas : Canvas d e whole)
    {start : NodeEntry × String} :
    start ∈ hotkeyStarts whole ↔ start ∈ hotkeyStarts d ∨ start ∈ hotkeyStarts e := by
  obtain ⟨n, hotkey⟩ := start
  simp only [Bindings.mem_hotkeyStarts_iff, canvas.nodes.mem_iff, or_and_right]

/-- Beside another macro, the hotkey of a start is bound exactly when that macro is sound, and
then to a document with the same start and the same runs. The hotkey is neither that of another
start nor the emergency stop. -/
theorem bound_beside_iff_sound {d e whole : Definition} (canvas : Canvas d e whole)
    (settings : HotkeySettings) {n : NodeEntry} {hotkey : String}
    (start : (n, hotkey) ∈ hotkeyStarts d)
    (only : ∀ m, (m, hotkey) ∈ hotkeyStarts d ∨ (m, hotkey) ∈ hotkeyStarts e → m.id = n.id)
    (free : settings.emergencyStop? ≠ some hotkey) {serial : Nat} {action : HotkeyAction}
    (bound : (ofDefinition serial d settings).get? hotkey = some action) (serial' : Nat) :
    (((ofDefinition serial' whole settings).get? hotkey).isSome = true ↔
      Compile.Sound .standard e) ∧
    ∀ other, (ofDefinition serial' whole settings).get? hotkey = some other →
      ∃ alone rooted, action = .toggle alone ∧ other = .toggle rooted ∧
        alone.start = n.id ∧ rooted.start = n.id ∧ SameRuns alone rooted := by
  have plain := trim_of_mem_hotkeyStarts start
  have roots : ∀ {D : Definition} {serial : Nat} {action : HotkeyAction},
      (∀ m, (m, hotkey) ∈ hotkeyStarts D → m.id = n.id) →
      (bindEntries D serial {} (hotkeyStarts D)).get? hotkey = some action →
      ∃ s rooted, Compile.document .standard s { D with start := n.id } = .ok rooted ∧
        action = .toggle rooted := by
    intro D serial action only bound
    rcases of_get?_bindEntries bound with before | ⟨⟨m, h⟩, mem, same, s, rooted, compiled, toggles⟩
    · cases before
    · rw [trim_of_mem_hotkeyStarts mem, plain] at same
      cases same
      rw [← only m mem]
      exact ⟨s, rooted, compiled, toggles⟩
  have onlyWhole : ∀ m, (m, hotkey) ∈ hotkeyStarts whole → m.id = n.id :=
    fun m mem => only m (canvas.mem_hotkeyStarts_iff.1 mem)
  rw [get?_ofDefinition plain free] at bound ⊢
  obtain ⟨s, alone, compiled, rfl⟩ := roots (fun m mem => only m (.inl mem)) bound
  refine ⟨⟨fun isBound => ?_, fun sound => ?_⟩, fun other bound' => ?_⟩
  · obtain ⟨other, bound'⟩ := Option.isSome_iff_exists.1 isBound
    obtain ⟨s', rooted, compiled', -⟩ := roots onlyWhole bound'
    exact (canvas.document_iff compiled s').1 ⟨rooted, compiled'⟩
  · exact isSome_get?_bindEntries (.inr ⟨(n, hotkey), canvas.mem_hotkeyStarts_iff.2 (.inl start),
      rfl, fun s' => (canvas.document_iff compiled s').2 sound⟩)
  · obtain ⟨s', rooted, compiled', rfl⟩ := roots onlyWhole bound'
    have agree := canvas.agree compiled compiled'
    refine ⟨alone, rooted, rfl, rfl, ?_, ?_, sameRuns_of_agree agree
      (Compile.valid_of_document compiled) (Compile.valid_of_document compiled')⟩
    · obtain ⟨_, _, _, rfl⟩ := Compile.document_eq_ok_iff.1 compiled
      rfl
    · obtain ⟨_, _, _, rfl⟩ := Compile.document_eq_ok_iff.1 compiled'
      rfl

def clicker : Definition where
  nodes := [⟨"a", "start", [("Hotkey", .text "<f6>")]⟩, ⟨"c", "mouse_click", []⟩]
  connections := [⟨"a", "exec", "c", "exec", "exec"⟩]

def neighbour (target : String) : Definition where
  nodes := [⟨"b", "start", [("Hotkey", .text "<f7>")]⟩]
  connections := [⟨"b", "exec", target, "exec", "exec"⟩]

def clickerBeside (target : String) : Definition where
  nodes := clicker.nodes ++ (neighbour target).nodes
  connections := clicker.connections ++ (neighbour target).connections

theorem canvas_clicker (target : String) (first : target ≠ "a") (second : target ≠ "c") :
    Canvas clicker (neighbour target) (clickerBeside target) where
  nodes := .append _ _
  connections := .append _ _
  apart := by simp [clicker, neighbour]
  left := by simp [clicker, neighbour]
  right := by simp [clicker, neighbour, first, second]

/-- A neighbour that leads to a missing node takes the hotkey away, one that is sound does not. -/
theorem clicker_beside_neighbours :
    ((ofDefinition 0 clicker {}).get? "<f6>").isSome = true ∧
      ((ofDefinition 0 (clickerBeside "b") {}).get? "<f6>").isSome = true ∧
      Compile.Sound .standard (neighbour "b") ∧
      ((ofDefinition 0 (clickerBeside "gone") {}).get? "<f6>").isSome = false ∧
      ¬ Compile.Sound .standard (neighbour "gone") := by
  have alone : ((ofDefinition 0 clicker {}).get? "<f6>").isSome = true := by decide +kernel
  have beside : ((ofDefinition 0 (clickerBeside "b") {}).get? "<f6>").isSome = true := by
    decide +kernel
  have broken : ((ofDefinition 0 (clickerBeside "gone") {}).get? "<f6>").isSome = false := by
    decide +kernel
  obtain ⟨action, bound⟩ := Option.isSome_iff_exists.1 alone
  have start : (⟨"a", "start", [("Hotkey", .text "<f6>")]⟩, "<f6>") ∈ hotkeyStarts clicker :=
    Bindings.mem_hotkeyStarts_iff.2 ⟨List.mem_cons_self, by decide, by decide +kernel⟩
  have only : ∀ target m, (m, "<f6>") ∈ hotkeyStarts clicker ∨
      (m, "<f6>") ∈ hotkeyStarts (neighbour target) → m.id = "a" := by
    rintro target m (own | other)
    · obtain ⟨mem, kind, _⟩ := Bindings.mem_hotkeyStarts_iff.1 own
      rcases List.mem_pair.1 mem with rfl | rfl
      · rfl
      · exact absurd kind (by decide)
    · obtain ⟨mem, _, assigned⟩ := Bindings.mem_hotkeyStarts_iff.1 other
      cases List.mem_singleton.1 mem
      exact absurd assigned (by decide +kernel)
  have sound := bound_beside_iff_sound (canvas_clicker "b" (by decide) (by decide)) {}
    start (only _) (by decide) bound 0
  have unsound := bound_beside_iff_sound (canvas_clicker "gone" (by decide) (by decide))
    {} start (only _) (by decide) bound 0
  exact ⟨alone, beside, sound.1.1 beside, broken, fun h => by simpa [broken] using unsound.1.2 h⟩

end MacroGraph
