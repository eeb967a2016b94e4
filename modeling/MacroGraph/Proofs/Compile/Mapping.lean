import Mathlib.Data.List.Induction
import MacroGraph.Proofs.Compile

namespace MacroGraph

theorem Registry.lookup_standard (name : String) :
    standard.lookup name = NodeKind.ofTypeName? name := by
  unfold standard NodeKind.ofTypeName?
  induction NodeKind.all with
  | nil => rfl
  | cons k rest ih =>
    rw [List.map_cons, List.lookup_cons, List.find?_cons, ih, BEq.comm]

/-- What mappings make of the name of a type: of those that map this name to the name of a kind the
last one counts. Without one the name stays as it is. -/
def builtinName (mappings : List (String × String)) (typeName : String) : String :=
  match mappings.reverse.find? fun m => m.1 == typeName && (NodeKind.ofTypeName? m.2).isSome with
  | some m => m.2
  | none => typeName

theorem builtinName_append (mappings : List (String × String)) (m : String × String)
    (typeName : String) : builtinName (mappings ++ [m]) typeName =
      if m.1 = typeName ∧ (NodeKind.ofTypeName? m.2).isSome = true then m.2
      else builtinName mappings typeName := by
  rw [builtinName, List.reverse_append, List.reverse_singleton, List.singleton_append,
    List.find?_cons]
  by_cases maps : m.1 = typeName ∧ (NodeKind.ofTypeName? m.2).isSome = true
  · simp [maps]
  · have skips : (m.1 == typeName && (NodeKind.ofTypeName? m.2).isSome) = false := by
      simpa using maps
    rw [skips, if_neg maps]
    rfl

theorem Registry.lookup_ofMappings (mappings : List (String × String)) (typeName : String) :
    (ofMappings mappings).lookup typeName = standard.lookup (builtinName mappings typeName) := by
  induction mappings using List.reverseRecOn with
  | nil => rfl
  | append_singleton mappings m ih =>
    rw [builtinName_append, ofMappings, List.foldl_append, List.foldl_cons, List.foldl_nil,
      ← ofMappings, withMapping]
    cases known : NodeKind.ofTypeName? m.2 with
    | none => simpa using ih
    | some k =>
      by_cases same : m.1 = typeName
      · simp [same, lookup_standard, known]
      · have other : (typeName == m.1) = false := by simpa using Ne.symm same
        simp [List.lookup_cons, other, same, ih]

/-- An entry with the name that mappings make of that of its type. -/
def NodeEntry.renamed (mappings : List (String × String)) (n : NodeEntry) : NodeEntry :=
  { n with typeName := builtinName mappings n.typeName }

/-- A definition with all types of its nodes renamed. -/
def Definition.renamed (mappings : List (String × String)) (d : Definition) : Definition :=
  { d with nodes := d.nodes.map (NodeEntry.renamed mappings) }

/-- What is of no known type after all mappings was not renamed. -/
theorem NodeEntry.renamed_of_unknown {mappings : List (String × String)} {n : NodeEntry}
    (unknown : (Registry.ofMappings mappings).lookup n.typeName = none) :
    n.renamed mappings = n := by
  rw [Registry.lookup_ofMappings, Registry.lookup_standard] at unknown
  unfold renamed builtinName at *
  split at unknown
  · next m found =>
    have known := List.find?_some found
    simp [unknown] at known
  · rfl

theorem Document.build_serial (nodes : List Node) (connections : List Connection) (start : String)
    (serial serial' : Nat) : build serial nodes connections start =
      (build serial' nodes connections start).map fun doc => { doc with serial } := by
  unfold build
  split
  · rfl
  · split
    · rfl
    · split
      · rfl
      · split <;> rfl

namespace Compile
variable (mappings : List (String × String))

theorem known_renamed (entries : List NodeEntry) :
    known .standard (entries.map (NodeEntry.renamed mappings)) =
      known (.ofMappings mappings) entries := by
  simp only [known, List.filterMap_map, Registry.lookup_ofMappings]
  rfl

theorem unknown_renamed (entries : List NodeEntry) :
    unknown .standard (entries.map (NodeEntry.renamed mappings)) =
      unknown (.ofMappings mappings) entries := by
  have kept : ∀ n ∈ unknown (.ofMappings mappings) entries, n.renamed mappings = n :=
    fun n mem => NodeEntry.renamed_of_unknown (mem_unknown_iff.1 mem).2
  calc unknown .standard (entries.map (NodeEntry.renamed mappings))
    _ = (unknown (.ofMappings mappings) entries).map (NodeEntry.renamed mappings) := by
      simp only [unknown, List.filter_map, Registry.lookup_ofMappings]
      rfl
    _ = unknown (.ofMappings mappings) entries := by
      rw [List.map_congr_left kept, List.map_id']

/-- Compiling with mappings gives what compiling without any gives of the definition that they
rename: the same error, or the same document but for its number. -/
theorem mappings_compile_away (d : Definition) (serial serial' : Nat) :
    document (.ofMappings mappings) serial d =
      (document .standard serial' (d.renamed mappings)).map fun doc => { doc with serial } := by
  unfold document
  rw [show (d.renamed mappings).connections = d.connections from rfl]
  cases connections d.connections with
  | error e => rfl
  | ok cs =>
    simp only [sortNodes_eq, Definition.renamed, known_renamed, unknown_renamed]
    cases (unknown (.ofMappings mappings) d.nodes).find? fun n =>
        (touched d.start cs).contains n.id with
    | some n => rfl
    | none => exact Document.build_serial _ _ _ serial serial'

example : (document (.ofMappings [("delay", "loop"), ("delay", "start"), ("delay", "timer")]) 0
    ⟨"d", [⟨"d", "delay", []⟩], []⟩).map Document.start = .ok "d" := by decide +kernel

end Compile
end MacroGraph
