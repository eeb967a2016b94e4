import MacroGraph.Proofs.Compile.Entry
import MacroGraph.Proofs.Hotkey

namespace MacroGraph

/-- A text assigns a hotkey. Blanks around both of them do not count, and the empty text and the
unset hotkey assign none. -/
def Assigns (text hotkey : String) : Prop :=
  trim text = trim hotkey ∧ trim hotkey ≠ "" ∧ trim hotkey ≠ "Not Set"

/-- The emergency stop is assigned this hotkey. -/
def HotkeySettings.Stops (settings : HotkeySettings) (hotkey : String) : Prop :=
  ∃ text, settings.emergencyStop = some text ∧ Assigns text hotkey

/-- The entry is one of a start that is assigned this hotkey. -/
structure NodeEntry.StartsOn (n : NodeEntry) (hotkey : String) : Prop where
  start : n.typeName = "start"
  assigns : ∃ raw v, n.values.lookup "Hotkey" = some raw ∧ Compile.Means raw v ∧
    Assigns v.toText hotkey

theorem assigns_iff {text hotkey : String} :
    Assigns text hotkey ↔ assignedHotkey? text = some (trim hotkey) := by
  have unset : unsetHotkey = "Not Set" := rfl
  simp only [Assigns, assignedHotkey?, ← unset, Bool.or_eq_true, decide_eq_true_eq,
    Option.ite_none_left_eq_some, Option.some.injEq, not_or]
  constructor
  · rintro ⟨same, some_key, set⟩
    exact ⟨same ▸ ⟨some_key, set⟩, same⟩
  · rintro ⟨⟨some_key, set⟩, same⟩
    exact ⟨same, same ▸ some_key, same ▸ set⟩

theorem ofTypeName?_eq_start_iff {name : String} :
    NodeKind.ofTypeName? name = some .start ↔ name = "start" :=
  ⟨fun found => (NodeKind.typeName_of_ofTypeName? found).symm,
    fun named => named ▸ NodeKind.ofTypeName?_typeName .start⟩

theorem NodeEntry.startsOn_iff {n : NodeEntry} {hotkey : String} : n.StartsOn hotkey ↔
    NodeKind.ofTypeName? n.typeName = some .start ∧
      Bindings.hotkeyOf? ((n.values.lookup Bindings.hotkeyField).map Value.ofJson) =
        some (trim hotkey) := by
  rw [ofTypeName?_eq_start_iff, Bindings.hotkeyOf?, ← assigns_iff, Bindings.hotkeyField]
  constructor
  · rintro ⟨start, raw, v, stored, means, assigns⟩
    rw [stored, Option.map_some, ← Compile.means_iff.1 means]
    exact ⟨start, assigns⟩
  · rintro ⟨start, assigns⟩
    cases stored : n.values.lookup "Hotkey" with
    | none =>
      rw [stored] at assigns
      exact absurd assigns.1.symm assigns.2.1
    | some raw =>
      rw [stored] at assigns
      exact ⟨start, raw, _, stored, Compile.means_iff.2 rfl, assigns⟩

namespace Bindings
variable {d : Definition} {hotkey : String}

theorem mem_hotkeyStarts_iff_startsOn {n : NodeEntry} :
    (n, trim hotkey) ∈ hotkeyStarts d ↔ n ∈ d.nodes ∧ n.StartsOn hotkey := by
  rw [mem_hotkeyStarts_iff, NodeEntry.startsOn_iff]

/-- The macro of this entry compiles, whatever number its document gets. -/
def Compiles (d : Definition) (n : NodeEntry) : Prop :=
  ∃ serial doc, Compile.document .standard serial { d with start := n.id } = .ok doc

theorem Compiles.document {n : NodeEntry} (compiles : Compiles d n) (serial : Nat) :
    ∃ doc, Compile.document .standard serial { d with start := n.id } = .ok doc := by
  obtain ⟨other, doc, compiled⟩ := compiles
  obtain ⟨flows, types, wellFormed, -⟩ := Compile.document_eq_ok_iff.1 compiled
  exact ⟨_, Compile.document_eq_ok_iff.2 ⟨flows, types, wellFormed, rfl⟩⟩

/-- How many documents are numbered for the entries of a canvas that come first. -/
def numbered (before : List NodeEntry) : Nat := (hotkeyStarts { nodes := before }).length

/-- What a hotkey is bound to, if anything: the emergency stop, or else the macro of the last entry
with this hotkey whose macro compiles. -/
inductive Binds (serial : Nat) (d : Definition) (settings : HotkeySettings) (hotkey : String) :
    Option HotkeyAction → Prop where
  | emergencyStop (stops : settings.Stops hotkey) : Binds serial d settings hotkey
      (some .emergencyStop)
  | toggle (free : ¬ settings.Stops hotkey) (before : List NodeEntry) (n : NodeEntry)
      (after : List NodeEntry) (doc : Document) (split : d.nodes = before ++ n :: after)
      (starts : n.StartsOn hotkey)
      (compiled : Compile.document .standard (serial + numbered before) { d with start := n.id } =
        .ok doc)
      (last : ∀ m ∈ after, m.StartsOn hotkey → ¬ Compiles d m) :
      Binds serial d settings hotkey (some (.toggle doc))
  | nothing (free : ¬ settings.Stops hotkey)
      (never : ∀ n ∈ d.nodes, n.StartsOn hotkey → ¬ Compiles d n) :
      Binds serial d settings hotkey none

theorem get?_bindEmergencyStop {b : Bindings} {settings : HotkeySettings} :
    (settings.Stops hotkey → (b.bindEmergencyStop settings).get? hotkey = some .emergencyStop) ∧
      (¬ settings.Stops hotkey → (b.bindEmergencyStop settings).get? hotkey = b.get? hotkey) := by
  unfold bindEmergencyStop HotkeySettings.emergencyStop?
  constructor
  · rintro ⟨text, set, assigns⟩
    rw [set, Option.bind_some, assigns_iff.1 assigns]
    simp only [get?_bind, trim_trim, if_true]
  · intro free
    split
    · next stop assigned =>
      obtain ⟨text, set, made⟩ := Option.bind_eq_some_iff.1 assigned
      rw [get?_bind, trim_of_assignedHotkey? made, if_neg]
      rintro rfl
      exact free ⟨text, set, assigns_iff.2 made⟩
    · rfl

theorem bindEntries_append {serial : Nat} {b : Bindings} {entries more : List (NodeEntry × String)} :
    bindEntries d serial b (entries ++ more) =
      bindEntries d (serial + entries.length) (bindEntries d serial b entries) more := by
  induction entries generalizing serial b with
  | nil => rfl
  | cons first rest ih =>
    obtain ⟨n, h⟩ := first
    simp only [List.cons_append, bindEntries, List.length_cons, Nat.add_comm rest.length 1,
      ← Nat.add_assoc]
    split <;> exact ih

/-- Entries that have other hotkeys or do not compile leave a hotkey as it was. -/
theorem get?_bindEntries_of_not_compiles {serial : Nat} {b : Bindings}
    {entries : List (NodeEntry × String)}
    (idle : ∀ e ∈ entries, trim e.2 = trim hotkey → ¬ Compiles d e.1) :
    (bindEntries d serial b entries).get? hotkey = b.get? hotkey := by
  induction entries generalizing serial b with
  | nil => rfl
  | cons first rest ih =>
    obtain ⟨n, h⟩ := first
    have later := fun e mem => idle e (List.mem_cons_of_mem _ mem)
    unfold bindEntries
    split
    · next rooted compiled =>
      rw [ih later, get?_bind, if_neg]
      intro same
      exact idle (n, h) List.mem_cons_self same.symm ⟨serial, rooted, compiled⟩
    · exact ih later

theorem hotkeyStarts_split {before after : List NodeEntry} {n : NodeEntry}
    (split : d.nodes = before ++ n :: after) (starts : n.StartsOn hotkey) :
    hotkeyStarts d =
      hotkeyStarts { nodes := before } ++ (n, trim hotkey) :: hotkeyStarts { nodes := after } := by
  obtain ⟨start, assigned⟩ := NodeEntry.startsOn_iff.1 starts
  simp only [hotkeyStarts, split, List.filterMap_append, List.filterMap_cons, if_pos start, assigned,
    Option.map_some]

theorem Binds.get?_eq {serial : Nat} {settings : HotkeySettings} {found : Option HotkeyAction}
    (binds : Binds serial d settings hotkey found) :
    (ofDefinition serial d settings).get? hotkey = found := by
  cases binds with
  | emergencyStop stops => exact get?_bindEmergencyStop.1 stops
  | toggle free before n after doc split starts compiled last =>
    rw [ofDefinition, get?_bindEmergencyStop.2 free, hotkeyStarts_split split starts,
      bindEntries_append, bindEntries, ← numbered, rootedAt, compiled]
    simp only
    rw [get?_bindEntries_of_not_compiles, get?_bind, trim_trim, if_pos rfl]
    rintro ⟨m, h⟩ mem same
    rw [trim_of_mem_hotkeyStarts mem] at same
    cases same
    obtain ⟨later, alike⟩ := mem_hotkeyStarts_iff_startsOn.1 mem
    exact last m later alike
  | nothing free never =>
    rw [ofDefinition, get?_bindEmergencyStop.2 free, get?_bindEntries_of_not_compiles]
    · rfl
    · rintro ⟨m, h⟩ mem same
      rw [trim_of_mem_hotkeyStarts mem] at same
      cases same
      obtain ⟨listed, starts⟩ := mem_hotkeyStarts_iff_startsOn.1 mem
      exact never m listed starts

theorem exists_last {α : Type} (P : α → Prop) (xs : List α) :
    (∀ x ∈ xs, ¬ P x) ∨ ∃ before x after, xs = before ++ x :: after ∧ P x ∧ ∀ y ∈ after, ¬ P y := by
  induction xs with
  | nil => exact .inl nofun
  | cons first rest ih =>
    rcases ih with none | ⟨before, x, after, rfl, holds, last⟩
    · by_cases holds : P first
      · exact .inr ⟨[], first, rest, rfl, holds, none⟩
      · exact .inl (List.forall_mem_cons.2 ⟨holds, none⟩)
    · exact .inr ⟨first :: before, x, after, rfl, holds, last⟩

theorem exists_binds (serial : Nat) (d : Definition) (settings : HotkeySettings)
    (hotkey : String) : ∃ found, Binds serial d settings hotkey found := by
  by_cases stops : settings.Stops hotkey
  · exact ⟨_, .emergencyStop stops⟩
  rcases exists_last (fun n => NodeEntry.StartsOn n hotkey ∧ Compiles d n) d.nodes with
    none | ⟨before, n, after, split, ⟨starts, compiles⟩, last⟩
  · exact ⟨_, .nothing stops fun n mem starts compiles => none n mem ⟨starts, compiles⟩⟩
  · obtain ⟨doc, compiled⟩ := compiles.document (serial + numbered before)
    exact ⟨_, .toggle stops before n after doc split starts compiled
      fun m mem starts compiles => last m mem ⟨starts, compiles⟩⟩

/-- Whatever hotkey is looked up among the bindings of a definition, just what it is bound to is
found: the emergency stop, or else the macro of the last start with this hotkey whose macro
compiles, or else nothing. -/
theorem get?_ofDefinition_eq_iff {serial : Nat} {settings : HotkeySettings}
    {found : Option HotkeyAction} :
    (ofDefinition serial d settings).get? hotkey = found ↔
      Binds serial d settings hotkey found := by
  refine ⟨fun finds => ?_, Binds.get?_eq⟩
  obtain ⟨other, binds⟩ := exists_binds serial d settings hotkey
  rwa [← finds, binds.get?_eq]

def rivals : Definition where
  start := "b"
  nodes := [⟨"a", "start", [("Hotkey", .text "<f6>")]⟩, ⟨"b", "start", [("Hotkey", .text " <f6> ")]⟩,
    ⟨"p", "plugin", []⟩]
  connections := [⟨"b", "exec", "p", "exec", "exec"⟩]

/-- The second start is where the definition begins, but it does not compile, and the hotkey toggles
the first. When it is the emergency stop it toggles neither. -/
theorem rivals_bind_first :
    (∃ doc, (ofDefinition 0 rivals {}).get? "<f6>" = some (.toggle doc) ∧ doc.start = "a") ∧
      (ofDefinition 0 rivals { emergencyStop := some "<f6> " }).get? "<f6>" =
        some .emergencyStop := by
  have key : Assigns "<f6>" "<f6>" := ⟨rfl, by decide, by decide⟩
  refine ⟨?toggle, get?_ofDefinition_eq_iff.2 (.emergencyStop ⟨_, rfl, by decide, key.2⟩)⟩
  obtain ⟨doc, compiled⟩ : ∃ doc, Compile.document .standard 0 { rivals with start := "a" } =
      .ok doc := by
    refine ⟨⟨0, Compile.known .standard rivals.nodes, [], "a", .ofConnections []⟩, ?_⟩
    decide +kernel
  have free : ¬ HotkeySettings.Stops {} "<f6>" := by
    rintro ⟨text, set, -⟩
    cases set
  have last : ∀ m ∈ rivals.nodes.tail, m.StartsOn "<f6>" → ¬ Compiles rivals m := by
    intro m mem starts compiles
    obtain ⟨other, made⟩ := compiles.document 0
    rcases List.mem_pair.1 mem with rfl | rfl
    · have lacking : Compile.document .standard 0 { rivals with start := "b" } =
          .error (.unknownType "p" "plugin") := by decide +kernel
      cases lacking.symm.trans made
    · exact absurd starts.start (by decide)
  refine ⟨doc, get?_ofDefinition_eq_iff.2 (.toggle free [] _ _ doc rfl
    ⟨rfl, _, _, rfl, .text "<f6>", key⟩ compiled last), ?_⟩
  obtain ⟨_, _, _, made⟩ := Compile.document_eq_ok_iff.1 compiled
  rw [made]

end Bindings
end MacroGraph
