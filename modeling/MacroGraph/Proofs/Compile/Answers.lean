import Mathlib.Order.Bounds.Basic
import MacroGraph.Proofs.Compile.Entry

/-!
What compiling answers. A definition is refused for the first connection of no flow, else for the
first node of unknown type that the start reaches; else the answer is that of building what is left.
The search for what the start reaches finds the least set of ids that no connection leaves:
`compiling_answers`.
-/
namespace MacroGraph.Compile
variable {registry : Registry} {serial : Nat} {d : Definition}

/-- No exec connection leaves the ids forwards and no data connection backwards. -/
structure Closed (cs : List Connection) (ids : Set String) : Prop where
  exec : ∀ c ∈ cs, c.flow = .exec → c.source ∈ ids → c.target ∈ ids
  data : ∀ c ∈ cs, c.flow = .data → c.target ∈ ids → c.source ∈ ids

/-- What compiling a definition answers, by the first thing that is wrong with it. -/
inductive Answers (registry : Registry) (serial : Nat) (d : Definition) :
    Except DocumentError Document → Prop where
  | unknownFlow {before after : List ConnectionEntry} {c : ConnectionEntry}
    (split : d.connections = before ++ c :: after)
    (flowing : ∀ b ∈ before, ∃ flow : Flow, flow.Spells b.flow)
    (unread : ∀ flow : Flow, ¬ flow.Spells c.flow) :
    Answers registry serial d (.error
      (.badConnection c.source c.sourcePin ("unknown flow kind '" ++ c.flow ++ "'")))
  | unknownType (flowing : ∀ c ∈ d.connections, ∃ flow : Flow, flow.Spells c.flow)
    {before after : List NodeEntry} {n : NodeEntry} (split : d.nodes = before ++ n :: after)
    (earlier : ∀ b ∈ before, ¬ Lacks registry d b) (lacks : Lacks registry d n) :
    Answers registry serial d (.error (.unknownType n.id n.typeName))
  | built {nodes : List Node} {cs : List Connection} (read : List.Forall₂ ReadAs d.connections cs)
    (typed : List.Forall₂ (Typed registry)
      (d.nodes.filter fun n => (registry.lookup n.typeName).isSome) nodes)
    (complete : ∀ n, ¬ Lacks registry d n) :
    Answers registry serial d (Document.build serial nodes
      (cs.filter fun c => d.nodes.all fun n => (registry.lookup n.typeName).isSome ||
        c.source != n.id && c.target != n.id) d.start)

theorem isSome_ofName?_iff {name : String} :
    (Flow.ofName? name).isSome = true ↔ ∃ flow : Flow, flow.Spells name := by
  simp only [Option.isSome_iff_exists, Flow.ofName?_eq_some_iff]

theorem connection_eq_error_iff {c : ConnectionEntry} {e : DocumentError} :
    connection c = .error e ↔ (∀ flow : Flow, ¬ flow.Spells c.flow) ∧
      e = .badConnection c.source c.sourcePin ("unknown flow kind '" ++ c.flow ++ "'") := by
  simp only [← Flow.ofName?_eq_some_iff, ← ne_eq, ← Option.eq_none_iff_forall_ne_some]
  cases read : Flow.ofName? c.flow with
  | none => simp [connection, read, eq_comm]
  | some flow => simp [connection, read]

theorem connection_eq_ok_of_spells {c : ConnectionEntry}
    (flowing : ∃ flow : Flow, flow.Spells c.flow) : ∃ read, connection c = .ok read := by
  obtain ⟨flow, spelled⟩ := flowing
  rw [← Flow.ofName?_eq_some_iff] at spelled
  exact ⟨_, by rw [connection, spelled]⟩

theorem connections_eq_error_iff {entries : List ConnectionEntry} {e : DocumentError} :
    connections entries = .error e ↔ ∃ before c after, entries = before ++ c :: after ∧
      (∀ b ∈ before, ∃ flow : Flow, flow.Spells b.flow) ∧ connection c = .error e := by
  induction entries with
  | nil => simp [connections]
  | cons c rest ih =>
    cases first : connection c with
    | error e' =>
      simp only [connections, first, Except.error.injEq]
      constructor
      · rintro rfl
        exact ⟨[], c, rest, rfl, by simp, first⟩
      · rintro ⟨before, c', after, split, flowing, unread⟩
        cases before with
        | nil =>
          cases split
          exact Except.error.inj (first.symm.trans unread)
        | cons b before =>
          cases split
          obtain ⟨read, known⟩ := connection_eq_ok_of_spells (flowing c List.mem_cons_self)
          cases first.symm.trans known
    | ok read =>
      have later : connections (c :: rest) = .error e ↔ connections rest = .error e := by
        simp only [connections, first]
        cases connections rest <;> simp [Except.map]
      rw [later, ih]
      constructor
      · rintro ⟨before, c', after, rfl, flowing, unread⟩
        have here : ∃ flow : Flow, flow.Spells c.flow := by
          by_contra none_spelled
          cases first.symm.trans
            (connection_eq_error_iff.2 ⟨not_exists.1 none_spelled, rfl⟩)
        exact ⟨c :: before, c', after, rfl, List.forall_mem_cons.2 ⟨here, flowing⟩, unread⟩
      · rintro ⟨before, c', after, split, flowing, unread⟩
        cases before with
        | nil =>
          cases split
          cases first.symm.trans unread
        | cons b before =>
          cases split
          exact ⟨before, c', after, rfl, (List.forall_mem_cons.1 flowing).2, unread⟩

theorem connections_eq_ok_of_spells {entries : List ConnectionEntry}
    (flowing : ∀ c ∈ entries, ∃ flow : Flow, flow.Spells c.flow) :
    connections entries = .ok (parsed entries) := by
  apply connections_eq_ok_iff.2
  exact ⟨fun c mem => isSome_ofName?_iff.2 (flowing c mem), rfl⟩

/-- An entry is found that the start reaches, and there is none before it. -/
theorem find?_unknown_eq_some_iff {n : NodeEntry} :
    ((unknown registry d.nodes).find? fun n =>
        (touched d.start (parsed d.connections)).contains n.id) = some n ↔
      ∃ before after, d.nodes = before ++ n :: after ∧ (∀ b ∈ before, ¬ Lacks registry d b) ∧
        Lacks registry d n := by
  have lacks_of_mem : ∀ m ∈ d.nodes, (decide ((registry.lookup m.typeName).isNone = true ∧
      (touched d.start (parsed d.connections)).contains m.id = true) = true ↔
        Lacks registry d m) := by
    intro m mem
    simp only [decide_eq_true_eq, lacks_iff, unknown, List.mem_filter, mem, true_and,
      List.contains_iff_mem]
  rw [unknown, List.find?_filter, List.find?_eq_some_iff_append]
  constructor
  · rintro ⟨lacks, before, after, split, earlier⟩
    have mem : n ∈ d.nodes := by simp [split]
    refine ⟨before, after, split, ?_, (lacks_of_mem n mem).1 lacks⟩
    intro b among
    have b_mem : b ∈ d.nodes := by simp [split, among]
    have passes := earlier b among
    rwa [Bool.not_eq_true', ← Bool.not_eq_true, lacks_of_mem b b_mem] at passes
  · rintro ⟨before, after, split, earlier, lacks⟩
    refine ⟨(lacks_of_mem n lacks.1).2 lacks, before, after, split, ?_⟩
    intro b among
    have b_mem : b ∈ d.nodes := by simp [split, among]
    rw [Bool.not_eq_true', ← Bool.not_eq_true, lacks_of_mem b b_mem]
    exact earlier b among

theorem find?_unknown_eq_none_iff :
    ((unknown registry d.nodes).find? fun n =>
        (touched d.start (parsed d.connections)).contains n.id) = none ↔
      ∀ n, ¬ Lacks registry d n := by
  simp only [List.find?_eq_none, List.contains_iff_mem, lacks_iff, not_and]

theorem kept_unknown_eq (registry : Registry) (entries : List NodeEntry) (cs : List Connection) :
    kept (unknown registry entries) cs = cs.filter fun c => entries.all fun n =>
      (registry.lookup n.typeName).isSome || c.source != n.id && c.target != n.id := by
  simp only [kept_eq, unknown, List.all_filter, Option.not_isNone]

theorem document_of_answers {answer : Except DocumentError Document}
    (answers : Answers registry serial d answer) : document registry serial d = answer := by
  unfold document
  cases answers with
  | unknownFlow split flowing unread =>
    have fails := connections_eq_error_iff.2
      ⟨_, _, _, split, flowing, connection_eq_error_iff.2 ⟨unread, rfl⟩⟩
    simp only [fails]
  | unknownType flowing split earlier lacks =>
    have found := find?_unknown_eq_some_iff.2 ⟨_, _, split, earlier, lacks⟩
    simp only [connections_eq_ok_of_spells flowing, sortNodes_eq, found]
  | built read typed complete =>
    have none_found := find?_unknown_eq_none_iff.2 complete
    obtain rfl := eq_parsed_of_readAs read
    obtain rfl := forall₂_typed_iff.1 typed
    simp only [forall₂_readAs_iff.1 read, sortNodes_eq, none_found, kept_unknown_eq]

/-- Without an unknown flow or an unknown type that is reached, what is left is built. -/
theorem document_of_complete (flowing : ∀ c ∈ d.connections, ∃ flow : Flow, flow.Spells c.flow)
    (complete : ∀ n, ¬ Lacks registry d n) :
    document registry serial d =
      Document.build serial (known registry d.nodes) (keptOf registry d) d.start := by
  rw [keptOf, kept_unknown_eq]
  exact document_of_answers (.built (forall₂_readAs_iff.2 (connections_eq_ok_of_spells flowing))
    (forall₂_typed_iff.2 rfl) complete)

theorem answers_document (registry : Registry) (serial : Nat) (d : Definition) :
    Answers registry serial d (document registry serial d) := by
  unfold document
  cases read : connections d.connections with
  | error e =>
    obtain ⟨before, c, after, split, flowing, unread⟩ := connections_eq_error_iff.1 read
    obtain ⟨unspelled, rfl⟩ := connection_eq_error_iff.1 unread
    exact .unknownFlow split flowing unspelled
  | ok cs =>
    have entries := forall₂_readAs_iff.2 read
    obtain ⟨named, rfl⟩ := connections_eq_ok_iff.1 read
    have flowing : ∀ c ∈ d.connections, ∃ flow : Flow, flow.Spells c.flow :=
      fun c mem => isSome_ofName?_iff.1 (named c mem)
    simp only [sortNodes_eq]
    cases found : (unknown registry d.nodes).find? fun n =>
        (touched d.start (parsed d.connections)).contains n.id with
    | some n =>
      obtain ⟨before, after, split, earlier, lacks⟩ := find?_unknown_eq_some_iff.1 found
      exact .unknownType flowing split earlier lacks
    | none =>
      simp only [kept_unknown_eq]
      exact .built entries (forall₂_typed_iff.2 rfl) (find?_unknown_eq_none_iff.1 found)

/-- The search from a start finds the least set that it is in and that no connection leaves. -/
theorem isLeast_touched (start : String) (cs : List Connection) :
    IsLeast {ids | start ∈ ids ∧ Closed cs ids} {id | id ∈ touched start cs} := by
  simp only [mem_touched_iff]
  refine ⟨⟨.refl, ?exec, ?data⟩, ?least⟩
  case exec =>
    intro c mem exec source
    exact Relation.ReflTransGen.tail source ⟨c, mem, .inl ⟨exec, rfl, rfl⟩⟩
  case data =>
    intro c mem data target
    exact Relation.ReflTransGen.tail target ⟨c, mem, .inr ⟨data, rfl, rfl⟩⟩
  case least =>
    rintro ids ⟨here, closed⟩ id path
    induction path with
    | refl => exact here
    | tail _ touches ih =>
      obtain ⟨c, mem, ⟨exec, rfl, rfl⟩ | ⟨data, rfl, rfl⟩⟩ := touches
      · exact closed.exec c mem exec ih
      · exact closed.data c mem data ih

/-- Compiling answers with the first unknown flow, else with the first entry of unknown type that the
start reaches, else with what building the other entries answers, each taken over field by field. The
ids that a start reaches are the least set that holds it and that no exec connection leaves forwards
and no data connection backwards. The search for them finds exactly that set, from every start and
along all connections, and always comes to an end. -/
theorem compiling_answers (registry : Registry) (serial : Nat) (d : Definition) :
    (∀ answer, Answers registry serial d answer ↔ document registry serial d = answer) ∧
      (∀ cs, List.Forall₂ ReadAs d.connections cs →
        IsLeast {ids | d.start ∈ ids ∧ Closed cs ids} {id | Reached d id}) ∧
      ∀ start cs, IsLeast {ids | start ∈ ids ∧ Closed cs ids} {id | id ∈ touched start cs} ∧
        (Spread.final (touchEdges cs) start).step? (touchEdges cs) = none := by
  refine ⟨?answers, ?reached, ?touched⟩
  case answers =>
    intro answer
    constructor
    · exact document_of_answers
    · rintro rfl
      exact answers_document registry serial d
  case reached =>
    intro cs read
    obtain rfl := eq_parsed_of_readAs read
    have same : {id | Reached d id} = {id | id ∈ touched d.start (parsed d.connections)} := by
      ext id
      exact mem_touched_iff.symm
    rw [same]
    exact isLeast_touched d.start (parsed d.connections)
  case touched =>
    intro start cs
    exact ⟨isLeast_touched start cs, Spread.final_rests (touchEdges cs) start⟩

/-- A start with a recorded key, a delay, and a plugin that leads into the delay. -/
def annotated : Definition where
  start := "s"
  nodes := [⟨"s", "start", [("Hotkey", .object [("display", .text "F6"), ("pynput", .text "<f6>")])]⟩,
    ⟨"x", "plugin", [("Mode", .text "fast")]⟩,
    ⟨"w", "delay", [("Duration", .number (.natural 2)), ("Unit", .text "ms"), ("Tags", .array [])]⟩]
  connections := [⟨"x", "exec", "w", "exec", "exec"⟩, ⟨"s", "exec", "w", "exec", " EXEC"⟩]

/-- The plugin is left out with its connection; all else is taken over. -/
theorem annotated_answers :
    let nodes : List Node := [⟨"s", .start, [("Hotkey", .text "<f6>")]⟩,
      ⟨"w", .delay, [("Duration", .number (.ofNat 2)), ("Unit", .text "ms"), ("Tags", .null)]⟩]
    let cs : List Connection := [⟨"s", Pin.exec, "w", Pin.exec, .exec⟩]
    document .standard 0 annotated = Document.build 0 nodes cs "s" ∧
      Document.build 0 nodes cs "s" = .ok ⟨0, nodes, cs, "s", .ofConnections cs⟩ := by
  intro nodes cs
  have read : List.Forall₂ ReadAs annotated.connections
      (⟨"x", Pin.exec, "w", Pin.exec, .exec⟩ :: cs) :=
    .cons ⟨rfl, rfl, rfl, rfl, Flow.ofName?_eq_some_iff.1 (by decide)⟩
      (.cons ⟨rfl, rfl, rfl, rfl, Flow.ofName?_eq_some_iff.1 (by decide)⟩ .nil)
  have typed : List.Forall₂ (Typed .standard)
      (annotated.nodes.filter fun n => (Registry.standard.lookup n.typeName).isSome) nodes :=
    .cons ⟨rfl, rfl, .cons ⟨rfl, .recorded rfl⟩ .nil⟩
      (.cons ⟨rfl, rfl, .cons ⟨rfl, .natural 2⟩ (.cons ⟨rfl, .text "ms"⟩
        (.cons ⟨rfl, .array []⟩ .nil))⟩ .nil)
  have complete : ∀ n, ¬ Lacks .standard annotated n := by
    have apart : ∀ id ∈ (unknown .standard annotated.nodes).map NodeEntry.id,
        id ∉ touched "s" (parsed annotated.connections) := by decide +kernel
    intro n lacks
    obtain ⟨mem, reached⟩ := lacks_iff.1 lacks
    exact apart n.id (List.mem_map_of_mem mem) reached
  exact ⟨((compiling_answers .standard 0 annotated).1 _).1 (.built read typed complete),
    by decide +kernel⟩

end MacroGraph.Compile
