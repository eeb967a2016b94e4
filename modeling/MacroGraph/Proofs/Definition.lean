import MacroGraph.Definition
import MacroGraph.Proofs.Json.Record
import MacroGraph.Proofs.Json.Rendering

/-!
Definitions from text. A text writes a definition with the fields of its objects in any order,
each under its own name or its other one, with keys that are no fields between them, and
without the fields that have their default. All such texts are read as the definition, and so
is the text that is written for it: `every_spelling_is_read`.
-/
namespace MacroGraph
open Json MacroGraph.Json.Tree

namespace ConnectionEntry

theorem record_sound : record.Sound where
  found := by simp [record, textField, FieldRule.names, Record.field?]
  start := by simp [record, textField]
  sets := by
    intro rule hr depth t d d' read
    simp only [record, List.mem_cons, List.not_mem_nil, or_false] at hr
    rcases hr with rfl | rfl | rfl | rfl | rfl <;>
    · obtain ⟨s, -, rfl⟩ := Except.exists_of_map_eq_ok read
      simp [record, textField]

/-- The fields of a connection, as they are written. None may be left out. -/
def fields (c : ConnectionEntry) : List FieldForm :=
  [.text ["startNodeId", "start_node_id"] False c.source,
   .text ["startPinName", "start_pin_name"] False c.sourcePin,
   .text ["endNodeId", "end_node_id"] False c.target,
   .text ["endPinName", "end_pin_name"] False c.targetPin,
   .text ["flow"] False c.flow]

def WrittenAs (c : ConnectionEntry) (t : Tree) : Prop :=
  ∃ members, t = .object members true ∧ Writes c.fields members

structure Draft.Of (c : ConnectionEntry) (d : Draft) : Prop where
  source : ∀ s ∈ d.source, s = c.source
  sourcePin : ∀ s ∈ d.sourcePin, s = c.sourcePin
  target : ∀ s ∈ d.target, s = c.target
  targetPin : ∀ s ∈ d.targetPin, s = c.targetPin
  flow : ∀ s ∈ d.flow, s = c.flow

theorem takes (c : ConnectionEntry) (depth : Nat) :
    List.Forall₂ (FieldRule.Takes (Draft.Of c) depth) record.fields c.fields := by
  refine .cons ?_ (.cons ?_ (.cons ?_ (.cons ?_ (.cons ?_ .nil))))
  · exact FieldRule.takes_text rfl False.elim fun d known => { known with source := by simp }
  · exact FieldRule.takes_text rfl False.elim fun d known => { known with sourcePin := by simp }
  · exact FieldRule.takes_text rfl False.elim fun d known => { known with target := by simp }
  · exact FieldRule.takes_text rfl False.elim fun d known => { known with targetPin := by simp }
  · exact FieldRule.takes_text rfl False.elim fun d known => { known with flow := by simp }

theorem WrittenAs.read {c : ConnectionEntry} {t : Tree} (h : c.WrittenAs t)
    (intact : t.intact = true) (depth : Nat) :
    ConnectionEntry.read (depth + 1) t = .ok c := by
  obtain ⟨members, rfl, writes⟩ := h
  obtain ⟨d, read, known, settled⟩ := Record.read_of_writes record_sound (c.takes depth) writes
    intact ⟨by simp [record], by simp [record], by simp [record], by simp [record],
      by simp [record]⟩
  simp only [record, fields, List.forall₂_cons, List.forall₂_nil_left_iff, or_false, FieldForm.text,
    textField] at settled
  obtain ⟨h₁, h₂, h₃, h₄, h₅, -⟩ := settled
  rw [ConnectionEntry.read, read]
  simp [Except.map, Draft.entry, getD_eq known.source (.inl h₁),
    getD_eq known.sourcePin (.inl h₂), getD_eq known.target (.inl h₃),
    getD_eq known.targetPin (.inl h₄), getD_eq known.flow (.inl h₅)]

theorem writtenAs_of_toJson {c : ConnectionEntry} {t : Tree} (h : c.toJson.WrittenAs t) :
    c.WrittenAs t := by
  obtain rfl : t = .object [(some "startNodeId", .text (some c.source)),
      (some "startPinName", .text (some c.sourcePin)), (some "endNodeId", .text (some c.target)),
      (some "endPinName", .text (some c.targetPin)), (some "flow", .text (some c.flow))] true := by
    simpa [toJson] using h
  refine ⟨_, rfl, ⟨⟨?_, ?_, ?_⟩, ?_⟩⟩
  · simp
  all_goals simp [fields, FieldForm.Names, FieldForm.text]

end ConnectionEntry

namespace NodeEntry

theorem record_sound : record.Sound where
  found := by simp [record, FieldRule.names, Record.field?]
  start := by simp [record]
  sets := by
    intro rule hr depth t d d' read
    simp only [record, List.mem_cons, List.not_mem_nil, or_false] at hr
    rcases hr with rfl | rfl | rfl <;>
    · obtain ⟨s, -, rfl⟩ := Except.exists_of_map_eq_ok read
      simp [record]

/-- The fields of a node. Its values may be left out where there are none. -/
def fields (n : NodeEntry) : List FieldForm :=
  [.text ["id"] False n.id, .text ["type"] False n.typeName,
   ⟨["values"], n.values = [], (Json.object n.values).WrittenAs⟩]

def WrittenAs (n : NodeEntry) (t : Tree) : Prop :=
  ∃ members, t = .object members true ∧ Writes n.fields members

structure Draft.Of (n : NodeEntry) (d : Draft) : Prop where
  id : ∀ s ∈ d.id, s = n.id
  typeName : ∀ s ∈ d.typeName, s = n.typeName
  values : ∀ v ∈ d.values, v = n.values

theorem takes {n : NodeEntry} {depth : Nat} (fits : Fits depth (.object n.values)) :
    List.Forall₂ (FieldRule.Takes (Draft.Of n) depth) record.fields n.fields := by
  refine .cons ?_ (.cons ?_ (.cons ?_ .nil))
  · exact FieldRule.takes_text rfl False.elim fun d known => { known with id := by simp }
  · exact FieldRule.takes_text rfl False.elim fun d known => { known with typeName := by simp }
  · refine ⟨rfl, fun _ => rfl, fun t d _ written known => ?_⟩
    exact ⟨{ d with values := some n.values }, by simp [written.toFields fits, Except.map],
      { known with values := by simp }⟩

theorem WrittenAs.read {n : NodeEntry} {t : Tree} (h : n.WrittenAs t)
    (intact : t.intact = true) {depth : Nat} (fits : Fits depth (.object n.values)) :
    NodeEntry.read (depth + 1) t = .ok n := by
  obtain ⟨members, rfl, writes⟩ := h
  obtain ⟨d, read, known, settled⟩ := Record.read_of_writes record_sound (takes fits) writes
    intact ⟨by simp [record], by simp [record], by simp [record]⟩
  simp only [record, fields, List.forall₂_cons, List.forall₂_nil_left_iff, or_false,
    FieldForm.text] at settled
  obtain ⟨h₁, h₂, h₃, -⟩ := settled
  rw [NodeEntry.read, read]
  simp [Except.map, Draft.entry, getD_eq known.id (.inl h₁), getD_eq known.typeName (.inl h₂),
    getD_eq known.values h₃]

theorem writtenAs_of_toJson {n : NodeEntry} {t : Tree} (h : n.toJson.WrittenAs t) :
    n.WrittenAs t := by
  obtain ⟨v, rfl, values⟩ : ∃ v, t = .object [(some "id", .text (some n.id)),
      (some "type", .text (some n.typeName)), (some "values", v)] true ∧
      (Json.object n.values).WrittenAs v := by
    simpa [toJson] using h
  refine ⟨_, rfl, ⟨⟨?_, ?_, ?_⟩, ?_⟩⟩
  · simp
  · simpa [fields, FieldForm.Names, FieldForm.text] using values
  all_goals simp [fields, FieldForm.Names, FieldForm.text]

end NodeEntry

namespace Definition

theorem record_sound : record.Sound where
  found := by simp [record, FieldRule.names, Record.field?]
  start := by simp [record]
  sets := by
    intro rule hr depth t d d' read
    simp only [record, List.mem_cons, List.not_mem_nil, or_false] at hr
    rcases hr with rfl | rfl | rfl <;>
    · obtain ⟨s, -, rfl⟩ := Except.exists_of_map_eq_ok read
      simp [record]

/-- The fields of a definition. An empty start and an empty list of connections may be left
out, the nodes may not. -/
def fields (m : Definition) : List FieldForm :=
  [.text ["start_node_id", "startNodeId"] (m.start = "") m.start,
   .list ["nodes"] False NodeEntry.WrittenAs m.nodes,
   .list ["connections"] (m.connections = []) ConnectionEntry.WrittenAs m.connections]

def WrittenAs (m : Definition) (t : Tree) : Prop :=
  ∃ members, t = .object members true ∧ Writes m.fields members

structure Draft.Of (m : Definition) (d : Draft) : Prop where
  start : ∀ s ∈ d.start, s = m.start
  nodes : ∀ ns ∈ d.nodes, ns = m.nodes
  connections : ∀ cs ∈ d.connections, cs = m.connections

theorem takes {m : Definition} {depth : Nat}
    (fits : ∀ n ∈ m.nodes, Json.Fits depth (.object n.values)) :
    List.Forall₂ (FieldRule.Takes (Draft.Of m) (depth + 2)) record.fields m.fields := by
  refine .cons ?_ (.cons ?_ (.cons ?_ .nil))
  · exact FieldRule.takes_text rfl (fun _ => rfl) fun d known => { known with start := by simp }
  · exact FieldRule.takes_list rfl False.elim (fun n hn t intact h => h.read intact (fits n hn))
      fun d known => { known with nodes := by simp }
  · exact FieldRule.takes_list rfl (fun _ => rfl) (fun c _ t intact h => h.read intact depth)
      fun d known => { known with connections := by simp }

theorem WrittenAs.read {m : Definition} {t : Tree} (h : m.WrittenAs t)
    (intact : t.intact = true) {depth : Nat}
    (fits : ∀ n ∈ m.nodes, Json.Fits depth (.object n.values)) :
    Definition.read (depth + 3) t = .ok m := by
  obtain ⟨members, rfl, writes⟩ := h
  obtain ⟨d, read, known, settled⟩ := Record.read_of_writes record_sound (takes fits) writes
    intact ⟨by simp [record], by simp [record], by simp [record]⟩
  simp only [record, fields, List.forall₂_cons, List.forall₂_nil_left_iff, or_false,
    FieldForm.text, FieldForm.list] at settled
  obtain ⟨h₁, h₂, h₃, -⟩ := settled
  rw [Definition.read, read]
  simp [Except.map, Draft.definition, getD_eq known.start h₁, getD_eq known.nodes (.inl h₂),
    getD_eq known.connections h₃]

/-- The values of the nodes are held by the reader. Three containers stand around each. -/
def Fits (m : Definition) : Prop :=
  ∀ n ∈ m.nodes, Json.Fits (Tree.depthLimit - 3) (.object n.values)

theorem WrittenAs.ofText {m : Definition} {t : Tree} {text : String} (h : m.WrittenAs t)
    (spelled : t.TextSpelling text) (fits : m.Fits) : Definition.ofText text = .ok m := by
  obtain ⟨_, _, _, _, spelling, _⟩ := id spelled
  have read : Definition.read Tree.depthLimit t = .ok m := h.read spelling.intact fits
  simp [Definition.ofText, readText, spelled.ofText, read]

theorem writtenAs_of_toJson {m : Definition} {t : Tree} (h : m.toJson.WrittenAs t) :
    m.WrittenAs t := by
  obtain ⟨cs, ns, rfl, nodes, connections⟩ : ∃ cs ns,
      t = .object [(some "start_node_id", .text (some m.start)), (some "nodes", .array ns true),
        (some "connections", .array cs true)] true ∧
      List.Forall₂ (fun n t => n.toJson.WrittenAs t) m.nodes ns ∧
      List.Forall₂ (fun c t => c.toJson.WrittenAs t) m.connections cs := by
    simpa [toJson, itemsWrittenAs_iff] using h
  have nodes' := nodes.imp fun _ _ => NodeEntry.writtenAs_of_toJson
  have connections' := connections.imp fun _ _ => ConnectionEntry.writtenAs_of_toJson
  refine ⟨_, rfl, ⟨⟨?_, ?_, ?_⟩, ?_⟩⟩
  · simp
  · simpa [fields, FieldForm.Names, FieldForm.text, FieldForm.list] using ⟨nodes', connections'⟩
  all_goals simp [fields, FieldForm.Names, FieldForm.text, FieldForm.list]

theorem renders {m : Definition} (fits : m.Fits) : Renders m.toJson := by
  have nodes : ∀ n ∈ m.nodes, Renders n.toJson := fun n hn =>
    renders_object (by simp [renders_text, (fits n hn).renders])
  have connections : ∀ c ∈ m.connections, Renders c.toJson := fun c _ =>
    renders_object (by simp [renders_text])
  refine renders_object ?_
  simpa [renders_text] using ⟨renders_array (by simpa using nodes),
    renders_array (by simpa using connections)⟩

end Definition

/-- The same node, whatever the order of its values. -/
structure NodeEntry.Same (n n' : NodeEntry) : Prop where
  id : n.id = n'.id
  typeName : n.typeName = n'.typeName
  values : Json.Same (.object n.values) (.object n'.values)

namespace Definition

/-- The same definition, whatever the order of its nodes' values. -/
structure Same (m m' : Definition) : Prop where
  start : m.start = m'.start
  nodes : List.Forall₂ NodeEntry.Same m.nodes m'.nodes
  connections : m.connections = m'.connections

/-- A text writes a definition, the values of its nodes in any order. -/
def Spelling (m : Definition) (text : String) : Prop :=
  ∃ m' t, m.Same m' ∧ m'.WrittenAs t ∧ t.TextSpelling text

theorem Same.fits {m m' : Definition} (same : m.Same m') (fits : m.Fits) : m'.Fits := by
  intro n' hn'
  obtain ⟨n, hn, moved⟩ := exists_of_forall₂ same.nodes.flip hn'
  exact moved.values.fits (fits n hn)

/-- Every text that writes a definition is read as this definition. The text that is written for
it is read back without even its values moved. -/
theorem every_spelling_is_read (m : Definition) (fits : m.Fits) :
    (∀ text, m.Spelling text → ∃ m', Definition.ofText text = .ok m' ∧ m.Same m') ∧
      Definition.ofText m.toJson.render = .ok m := by
  constructor
  · rintro text ⟨m', t, same, written, spelled⟩
    exact ⟨m', written.ofText spelled (same.fits fits), same⟩
  · obtain ⟨t, written, spelled⟩ := renders fits
    exact (writtenAs_of_toJson written).ofText
      ⟨[], _, [], spaces_nil, spelled, spaces_nil, by simp⟩ fits

def loneStart : Definition where
  start := "a"
  nodes := [⟨"a", "start", [("n", .number (.natural 5)), ("k", .null)]⟩]

/-- The same with an alias, an escape, a key that is no field's, its fields and values moved and
its connections left out. -/
def respelled : String :=
  "\x7b\"x\":[-1.5e2], \"nodes\":[\x7b\"type\":\"start\"," ++
    "\"values\":\x7b\"k\":null,\"n\":5\x7d,\"id\":\"\\u0061\"\x7d],\"startNodeId\":\"a\"\x7d"

theorem loneStart_fits : loneStart.Fits := by
  intro n hn
  obtain rfl := List.mem_singleton.1 hn
  refine .object (by decide) ?_
  simp only [List.forall_mem_cons, List.not_mem_nil, false_implies, implies_true, and_true]
  exact ⟨.natural (by decide), .null⟩

theorem spelling_respelled : loneStart.Spelling respelled := by
  have tight := spaces_nil
  have plain := spelling_escaped
  have number : NumeralSpelling ⟨true, ['1'], some ['5'], some (false, ['2'])⟩
      ['-', '1', '.', '5', 'e', '2'] :=
    ⟨['.', '5'], ['e', '2'], by simp [Whole, Digits], by simp [FractionSpelling, Digits],
      by simp [ExponentSpelling, Digits], rfl⟩
  have letter : StringSpelling (some "a") ['"', '\\', 'u', '0', '0', '6', '1', '"'] := by
    refine ⟨[.unit 97], ['\\', 'u', '0', '0', '6', '1'], ?_, ?_, rfl⟩
    · exact .hex (a := ('0', 0)) (b := ('0', 0)) (c := ('6', 6)) (d := ('1', 1)) (by decide)
        (by decide) (by decide) (by decide) .nil
    · exact .unit (n := 97) (by simp [IsSurrogate]) .nil
  have values := Spelling.object tight (.member (plain "k") tight tight .nullWord tight tight
    (.lastMember (plain "n") tight tight (spelling_integer false 5) tight))
  have node := Spelling.object tight (.member (plain "type") tight tight (.text (plain "start"))
    tight tight (.member (plain "values") tight tight values tight tight
      (.lastMember (plain "id") tight tight (.text letter) tight)))
  have gap : Spaces [' '] := by simp [Spaces]
  have spelled := Spelling.object tight (.member (plain "x") tight tight
    (.array tight (.lastItem (.number number) tight)) tight gap
    (.member (plain "nodes") tight tight (.array tight (.lastItem node tight)) tight tight
      (.lastMember (plain "startNodeId") tight tight (.text (plain "a")) tight)))
  have moved : NodeEntry.WrittenAs ⟨"a", "start", [("k", .null), ("n", .number (.natural 5))]⟩
      (.object [(some "type", .text (some "start")), (some "values", .object [(some "k", .null),
        (some "n", .number ⟨false, digitsOf 5, none, none⟩)] true),
        (some "id", .text (some "a"))] true) := by
    have values : Json.WrittenAs (.object [("k", .null), ("n", .number (.natural 5))]) _ :=
      .object (.field "k" .null (.field "n" (.natural 5) .noField))
    refine ⟨_, rfl, ⟨⟨by simp, ?_, ?_⟩, ?_⟩⟩
    · simpa [NodeEntry.fields, FieldForm.Names, FieldForm.text] using values
    all_goals simp [NodeEntry.fields, FieldForm.Names, FieldForm.text]
  refine ⟨⟨"a", [⟨"a", "start", [("k", .null), ("n", .number (.natural 5))]⟩], []⟩, _,
    ⟨rfl, .cons ⟨rfl, rfl, ?_⟩ .nil, rfl⟩, ⟨_, rfl, ⟨⟨by simp, ?_, ?_⟩, ?_⟩⟩,
    [], _, [], tight, spelled, tight, rfl⟩
  · exact .object (.swap ..) (.field "k" .null (.field "n" (.number _) .noField))
  · simpa [fields, FieldForm.Names, FieldForm.text, FieldForm.list] using moved
  all_goals simp [fields, FieldForm.Names, FieldForm.text, FieldForm.list]

theorem respelled_is_read : loneStart.Fits ∧ loneStart.Spelling respelled ∧
    (∃ m', Definition.ofText respelled = .ok m' ∧ loneStart.Same m') ∧
    Definition.ofText loneStart.toJson.render = .ok loneStart :=
  ⟨loneStart_fits, spelling_respelled,
    (every_spelling_is_read loneStart loneStart_fits).1 _ spelling_respelled,
    (every_spelling_is_read loneStart loneStart_fits).2⟩

end Definition

end MacroGraph
