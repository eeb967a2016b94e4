import MacroGraph.Proofs.Compile

/-!
What looking up a pin says about the connections. However a document came about, its connections
are those it was made of in their order; one exec connection at most leaves a pin, and of the data
connections into a pin the first one counts: `lookups_agree_with_connections`.
-/
namespace MacroGraph

theorem WellFormed.at_most_one {nodes : List Node} {connections : List Connection} {start : String}
    (w : WellFormed nodes connections start) (pin : String × String) :
    (connections.filter fun c => c.isExec && c.output == pin).length ≤ 1 := by
  have once := List.nodup_iff_count_le_one.1 w.single pin
  rw [List.count_eq_countP, List.countP_map, List.countP_eq_length_filter,
    List.filter_filter] at once
  have same : (fun c => ((· == pin) ∘ Connection.output) c && Connection.isExec c) =
      fun c => c.isExec && c.output == pin := by
    funext c
    exact Bool.and_comm _ _
  rwa [same] at once

namespace Compile
variable {registry : Registry} {serial : Nat} {definition : Definition} {d : Document}

/-- The entries of connections without an entry of unknown type at either end. -/
def spared (registry : Registry) (definition : Definition) : List ConnectionEntry :=
  definition.connections.filter fun c =>
    (unknown registry definition.nodes).all fun n => c.source != n.id && c.target != n.id

/-- Entries and connections drop out together, so those that stay keep their order. -/
theorem map_connection_filter {entries : List ConnectionEntry}
    (flowing : ∀ c ∈ entries, (Flow.ofName? c.flow).isSome = true)
    (touches : String → String → Bool) :
    (entries.filter fun c => touches c.source c.target).map connection =
      ((parsed entries).filter fun c => touches c.source c.target).map .ok := by
  induction entries with
  | nil => rfl
  | cons entry rest ih =>
    obtain ⟨here, later⟩ := List.forall_mem_cons.1 flowing
    obtain ⟨flow, known⟩ := Option.isSome_iff_exists.1 here
    have read : connection entry =
        .ok ⟨entry.source, entry.sourcePin, entry.target, entry.targetPin, flow⟩ := by
      rw [connection, known]
    have first : parsed (entry :: rest) =
        ⟨entry.source, entry.sourcePin, entry.target, entry.targetPin, flow⟩ :: parsed rest := by
      simp [parsed, read, Except.toOption]
    rw [first, List.filter_cons, List.filter_cons]
    split
    · rw [List.map_cons, List.map_cons, read, ih later]
    · exact ih later

/-- A compiled document has the connections that its definition lists, in their order, but for
those that touch what is left out. -/
theorem connections_of_document (compiled : document registry serial definition = .ok d) :
    (spared registry definition).map connection = d.connections.map .ok := by
  obtain ⟨flowing, _, _, rfl⟩ := document_eq_ok_iff.1 compiled
  rw [spared, keptOf, kept_eq]
  exact map_connection_filter flowing fun source target =>
    (unknown registry definition.nodes).all fun n => source != n.id && target != n.id

end Compile

namespace Document
variable {d : Document}

/-- The documents made of a list of connections. They are built from it, or compiled from a
definition that lists it, or are such documents rooted at another start. -/
inductive MadeOf (connections : List Connection) : Document → Prop where
  | built {serial : Nat} {nodes : List Node} {start : String} {d : Document}
    (h : build serial nodes connections start = .ok d) : MadeOf connections d
  | compiled {registry : Registry} {serial : Nat} {definition : Definition} {d : Document}
    (h : Compile.document registry serial definition = .ok d)
    (listed : (Compile.spared registry definition).map Compile.connection =
      connections.map .ok) : MadeOf connections d
  | rerooted {d e : Document} {start : String} (from_ : MadeOf connections d)
    (h : d.withStart start = .ok e) : MadeOf connections e

theorem connections_of_withStart {e : Document} {start : String}
    (h : d.withStart start = .ok e) : e.connections = d.connections := by
  unfold withStart at h
  split at h
  · cases h
  · cases h
    rfl

namespace MadeOf
variable {connections : List Connection}

theorem obtained (made : MadeOf connections d) : d.Obtained := by
  induction made with
  | built h => exact .built h
  | compiled h _ => exact .compiled h
  | rerooted _ h ih => exact .rerooted ih h

theorem connections_eq (made : MadeOf connections d) : d.connections = connections := by
  induction made with
  | built h =>
    obtain ⟨_, rfl⟩ := build_eq_ok_iff.1 h
    rfl
  | compiled h listed =>
    have injective : Function.Injective (Except.ok : Connection → Except DocumentError Connection) :=
      fun _ _ => Except.ok.inj
    exact injective.list_map ((Compile.connections_of_document h).symm.trans listed)
  | rerooted _ h ih => exact (connections_of_withStart h).trans ih

end MadeOf

theorem Obtained.madeOf (obtained : d.Obtained) : MadeOf d.connections d := by
  induction obtained with
  | built h =>
    obtain ⟨w, rfl⟩ := build_eq_ok_iff.1 h
    exact .built h
  | compiled h => exact .compiled h (Compile.connections_of_document h)
  | rerooted _ h ih =>
    rw [connections_of_withStart h]
    exact .rerooted ih h

namespace Valid

theorem dataSource_eq_some_iff (valid : d.Valid) {id pin : String} {source : String × String} :
    d.dataSource id pin = some source ↔ ∃ before c after,
      d.connections = before ++ c :: after ∧ (c.flow = .data ∧ c.input = (id, pin)) ∧
        c.output = source ∧ ∀ b ∈ before, ¬ (b.flow = .data ∧ b.input = (id, pin)) := by
  obtain ⟨_, indexed⟩ := valid_iff.1 valid
  rw [dataSource, indexed, PinIndex.lookup_ofConnections_data, Option.map_eq_some_iff]
  simp only [firstInto?, List.find?_eq_some_iff_append, Bool.and_eq_true, Bool.not_eq_true',
    Bool.and_eq_false_iff, Connection.isData, beq_iff_eq, beq_eq_false_iff_ne, ← not_and_or]
  constructor
  · rintro ⟨c, ⟨into, before, after, split, first⟩, out⟩
    exact ⟨before, c, after, split, into, out, first⟩
  · rintro ⟨before, c, after, split, into, out, first⟩
    exact ⟨c, ⟨into, before, after, split, first⟩, out⟩

theorem dataSource_eq_none_iff (valid : d.Valid) {id pin : String} :
    d.dataSource id pin = none ↔ ∀ c ∈ d.connections, c.flow = .data → c.input ≠ (id, pin) := by
  obtain ⟨_, indexed⟩ := valid_iff.1 valid
  rw [dataSource, indexed, PinIndex.lookup_ofConnections_data, Option.map_eq_none_iff]
  simp only [firstInto?, List.find?_eq_none, Bool.and_eq_true, not_and, Connection.isData,
    beq_iff_eq, ne_eq]

end Valid

/-- Every document that is built, compiled or rooted anew is made of some connections, and has
exactly those in their order. A pin is followed where an exec connection leads from it, of which
there is one at most. An input is fed from the source of the first data connection into it, and
from nowhere just when there is none. -/
theorem lookups_agree_with_connections (d : Document) :
    (d.Obtained ↔ ∃ connections, MadeOf connections d) ∧
      ∀ connections, MadeOf connections d →
        d.connections = connections ∧
        ∀ id pin,
          (∀ target, d.nextExec id pin = some target ↔
            ∃ c ∈ d.connections, c.flow = .exec ∧ c.output = (id, pin) ∧ c.target = target) ∧
          (d.connections.filter fun c => c.isExec && c.output == (id, pin)).length ≤ 1 ∧
          (∀ source, d.dataSource id pin = some source ↔ ∃ before c after,
            d.connections = before ++ c :: after ∧ (c.flow = .data ∧ c.input = (id, pin)) ∧
              c.output = source ∧ ∀ b ∈ before, ¬ (b.flow = .data ∧ b.input = (id, pin))) ∧
          (d.dataSource id pin = none ↔
            ∀ c ∈ d.connections, c.flow = .data → c.input ≠ (id, pin)) := by
  constructor
  · constructor
    · exact fun obtained => ⟨d.connections, obtained.madeOf⟩
    · rintro ⟨_, made⟩
      exact made.obtained
  · intro connections made
    have valid := made.obtained.valid
    refine ⟨made.connections_eq, ?_⟩
    intro id pin
    exact ⟨fun target => valid.nextExec_eq_some_iff, (valid_iff.1 valid).1.at_most_one (id, pin),
      fun source => valid.dataSource_eq_some_iff, valid.dataSource_eq_none_iff⟩

def doublyFed : Definition where
  start := "s"
  nodes := [⟨"s", "start", []⟩, ⟨"t", "start", []⟩, ⟨"w", "delay", []⟩, ⟨"x", "plugin", []⟩,
    ⟨"m", "number_literal", []⟩, ⟨"n", "number_literal", []⟩]
  connections := [⟨"n", "Value", "x", "Amount", "data"⟩, ⟨"n", "Value", "w", "Duration", "data"⟩,
    ⟨"s", "exec", "w", "exec", "exec"⟩, ⟨"m", "Value", "w", "Duration", "data"⟩,
    ⟨"n", "Value", "w", "Duration", "data"⟩]

/-- Rooted at its other start and back again it has all connections but the one to the plugin, and
the wait is fed by the first of them that gives it a time. -/
theorem doublyFed_lookups :
    ∃ d e f, Compile.document .standard 0 doublyFed = .ok d ∧ d.withStart "t" = .ok e ∧
      e.withStart "s" = .ok f ∧
      f.connections = [⟨"n", "Value", "w", "Duration", .data⟩, ⟨"s", "exec", "w", "exec", .exec⟩,
        ⟨"m", "Value", "w", "Duration", .data⟩, ⟨"n", "Value", "w", "Duration", .data⟩] ∧
      f.nextExec "s" Pin.exec = some "w" ∧ f.nextExec "t" Pin.exec ≠ some "w" ∧
      f.dataSource "w" "Duration" = some ("n", "Value") ∧ f.dataSource "w" "Other" = none := by
  obtain ⟨d, compiled⟩ : ∃ d, Compile.document .standard 0 doublyFed = .ok d := by
    refine ⟨⟨0, Compile.known .standard doublyFed.nodes, Compile.keptOf .standard doublyFed, "s",
      .ofConnections (Compile.keptOf .standard doublyFed)⟩, ?_⟩
    decide +kernel
  obtain ⟨e, there⟩ : ∃ e, d.withStart "t" = .ok e := by
    obtain ⟨_, _, _, rfl⟩ := Compile.document_eq_ok_iff.1 compiled
    exact ⟨_, rfl⟩
  obtain ⟨f, back⟩ : ∃ f, e.withStart "s" = .ok f := by
    obtain ⟨_, _, _, rfl⟩ := Compile.document_eq_ok_iff.1 compiled
    cases there
    exact ⟨_, rfl⟩
  have kept : (Compile.spared .standard doublyFed).map Compile.connection = List.map .ok
      [⟨"n", "Value", "w", "Duration", .data⟩, ⟨"s", "exec", "w", "exec", .exec⟩,
        ⟨"m", "Value", "w", "Duration", .data⟩, ⟨"n", "Value", "w", "Duration", .data⟩] := by
    decide +kernel
  have made := MadeOf.rerooted (.rerooted (.compiled compiled kept) there) back
  obtain ⟨listed, pins⟩ := (lookups_agree_with_connections f).2 _ made
  refine ⟨d, e, f, compiled, there, back, listed, ?_, ?_, ?_, ?_⟩
  · rw [(pins "s" Pin.exec).1 "w", listed]
    decide
  · rw [ne_eq, (pins "t" Pin.exec).1 "w", listed]
    decide
  · rw [(pins "w" "Duration").2.2.1 ("n", "Value"), listed]
    exact ⟨[], _, _, rfl, ⟨rfl, rfl⟩, rfl, by simp⟩
  · rw [(pins "w" "Other").2.2.2, listed]
    decide

end Document
end MacroGraph
