import MacroGraph.Compile
import MacroGraph.Proofs.Document.WellFormed
import MacroGraph.Proofs.Graph.Reach
import MacroGraph.Proofs.Interleaving

namespace MacroGraph.Compile
variable {registry : Registry}

def known (registry : Registry) (entries : List NodeEntry) : List Node :=
  entries.filterMap fun n => (registry.lookup n.typeName).map (node n)

def unknown (registry : Registry) (entries : List NodeEntry) : List NodeEntry :=
  entries.filter fun n => (registry.lookup n.typeName).isNone

theorem mem_unknown_iff {entries : List NodeEntry} {n : NodeEntry} :
    n ∈ unknown registry entries ↔ n ∈ entries ∧ registry.lookup n.typeName = none := by
  rw [unknown, List.mem_filter, Option.isNone_iff_eq_none]

def parsed (entries : List ConnectionEntry) : List Connection :=
  entries.filterMap fun c => (connection c).toOption

/-- The connections that compiling keeps. -/
def keptOf (registry : Registry) (d : Definition) : List Connection :=
  kept (unknown registry d.nodes) (parsed d.connections)

/-- A run that touches the first id touches the second: an exec connection leads there, or a
data connection comes from there. -/
def Touches (cs : List Connection) (a b : String) : Prop :=
  ∃ c ∈ cs, (c.flow = .exec ∧ c.source = a ∧ c.target = b) ∨
    (c.flow = .data ∧ c.target = a ∧ c.source = b)

theorem mem_touchEdges_iff {cs : List Connection} {a b : String} :
    (a, b) ∈ touchEdges cs ↔ Touches cs a b := by
  simp only [touchEdges, List.mem_map, Touches]
  apply exists_congr
  intro c
  apply and_congr_right
  intro _
  cases c.flow <;> simp

theorem mem_touched_iff {cs : List Connection} {start id : String} :
    id ∈ touched start cs ↔ Relation.ReflTransGen (Touches cs) start id := by
  rw [touched, mem_reachable_iff]
  exact path_iff_reflTransGen fun a b => mem_touchEdges_iff

/-- The least set of ids that holds the start and that exec connections do not leave forwards nor
data connections backwards. -/
def Reached (d : Definition) : String → Prop :=
  Relation.ReflTransGen (Touches (parsed d.connections)) d.start

theorem Reached.exec {d : Definition} {c : Connection} (source : Reached d c.source)
    (mem : c ∈ parsed d.connections) (exec : c.flow = .exec) : Reached d c.target :=
  source.tail ⟨c, mem, .inl ⟨exec, rfl, rfl⟩⟩

theorem Reached.data {d : Definition} {c : Connection} (target : Reached d c.target)
    (mem : c ∈ parsed d.connections) (data : c.flow = .data) : Reached d c.source :=
  target.tail ⟨c, mem, .inr ⟨data, rfl, rfl⟩⟩

/-- The start reaches an entry of unknown type. -/
def Lacks (registry : Registry) (d : Definition) (n : NodeEntry) : Prop :=
  n ∈ d.nodes ∧ registry.lookup n.typeName = none ∧ Reached d n.id

theorem lacks_iff {d : Definition} {n : NodeEntry} : Lacks registry d n ↔
    n ∈ unknown registry d.nodes ∧ n.id ∈ touched d.start (parsed d.connections) := by
  rw [Lacks, mem_unknown_iff, mem_touched_iff, and_assoc]
  rfl

theorem connections_eq_ok_iff {entries : List ConnectionEntry} {cs : List Connection} :
    connections entries = .ok cs ↔
      (∀ c ∈ entries, (Flow.ofName? c.flow).isSome = true) ∧ cs = parsed entries := by
  induction entries generalizing cs with
  | nil => simp [connections, parsed, eq_comm (a := ([] : List Connection))]
  | cons c rest ih =>
    cases flow : Flow.ofName? c.flow with
    | none => simp [connections, connection, flow]
    | some f =>
      have here : parsed (c :: rest) = ⟨c.source, c.sourcePin, c.target, c.targetPin, f⟩ ::
          parsed rest := by
        simp [parsed, connection, flow, Except.toOption]
      rw [here, List.forall_mem_cons, flow]
      simp only [connections, connection, flow, Option.isSome_some, true_and]
      cases later : connections rest with
      | error e =>
        have fails : ¬ ∀ c ∈ rest, (Flow.ofName? c.flow).isSome = true := by
          intro known
          have read := ih.2 ⟨known, rfl⟩
          rw [later] at read
          cases read
        simp [Except.map, fails]
      | ok cs' =>
        obtain ⟨known, rfl⟩ := ih.1 later
        simp only [Except.map, Except.ok.injEq]
        exact ⟨fun same => ⟨known, same.symm⟩, fun h => h.2.symm⟩

/-- Sorting fails at the first entry of unknown type that is reached. -/
theorem sortNodes_eq (registry : Registry) (reached : List String) (entries : List NodeEntry) :
    sortNodes registry reached entries =
      match (unknown registry entries).find? fun n => reached.contains n.id with
      | some n => .error (.unknownType n.id n.typeName)
      | none => .ok (known registry entries, unknown registry entries) := by
  induction entries with
  | nil => rfl
  | cons n rest ih =>
    cases found : registry.lookup n.typeName with
    | some kind =>
      have nodes : known registry (n :: rest) = node n kind :: known registry rest := by
        simp [known, found]
      have skipped : unknown registry (n :: rest) = unknown registry rest := by
        simp [unknown, found]
      simp only [sortNodes, found, ih, nodes, skipped]
      split <;> rfl
    | none =>
      have nodes : known registry (n :: rest) = known registry rest := by
        simp [known, found]
      have skipped : unknown registry (n :: rest) = n :: unknown registry rest := by
        simp [unknown, found]
      by_cases here : reached.contains n.id = true
      · simp only [sortNodes, found, here, skipped, List.find?_cons, if_true]
      · rw [Bool.not_eq_true] at here
        simp only [sortNodes, found, here, ih, nodes, skipped, List.find?_cons,
          Bool.false_eq_true, if_false]
        cases (unknown registry rest).find? fun n => reached.contains n.id <;> rfl

theorem document_eq_ok_iff {serial : Nat} {d : Definition} {doc : Document} :
    document registry serial d = .ok doc ↔
      (∀ c ∈ d.connections, (Flow.ofName? c.flow).isSome = true) ∧
        (∀ n ∈ unknown registry d.nodes,
          ¬ Relation.ReflTransGen (Touches (parsed d.connections)) d.start n.id) ∧
        WellFormed (known registry d.nodes) (keptOf registry d) d.start ∧
        doc = ⟨serial, known registry d.nodes, keptOf registry d, d.start,
          .ofConnections (keptOf registry d)⟩ := by
  unfold document
  cases flows : connections d.connections with
  | error e =>
    simp only [reduceCtorEq, false_iff, not_and]
    intro flowing
    have := connections_eq_ok_iff.2 ⟨flowing, rfl⟩
    simp [flows] at this
  | ok cs =>
    obtain ⟨flowing, rfl⟩ := connections_eq_ok_iff.1 flows
    simp only [sortNodes_eq, ← Document.build_eq_ok_iff, ← mem_touched_iff]
    cases found : (unknown registry d.nodes).find? fun n =>
        (touched d.start (parsed d.connections)).contains n.id with
    | some n =>
      have mem := List.mem_of_find?_eq_some found
      have reached := List.find?_some found
      simp only [reduceCtorEq, false_iff, not_and]
      exact fun _ apart => absurd (List.contains_iff_mem.1 reached) (apart n mem)
    | none =>
      have apart : ∀ n ∈ unknown registry d.nodes,
          n.id ∉ touched d.start (parsed d.connections) := by
        simpa using found
      exact ⟨fun built => ⟨flowing, apart, built⟩, fun h => h.2.2⟩

theorem kept_eq (skipped : List NodeEntry) (cs : List Connection) :
    kept skipped cs =
      cs.filter fun c => skipped.all fun n => c.source != n.id && c.target != n.id := by
  unfold kept
  apply List.filter_congr
  intro c _
  rw [Bool.eq_iff_iff]
  simp only [List.all_eq_true, Bool.and_eq_true, Bool.not_eq_true', bne_iff_ne, ne_eq,
    List.contains_eq_mem, decide_eq_false_iff_not, List.mem_map, not_exists, not_and]
  constructor
  · exact fun h n mem => ⟨fun eq => h.1 n mem eq.symm, fun eq => h.2 n mem eq.symm⟩
  · exact fun h => ⟨fun n mem eq => (h n mem).1 eq.symm, fun n mem eq => (h n mem).2 eq.symm⟩

theorem mem_kept_iff {skipped : List NodeEntry} {cs : List Connection} {c : Connection} :
    c ∈ kept skipped cs ↔ c ∈ cs ∧ ∀ n ∈ skipped, c.source ≠ n.id ∧ c.target ≠ n.id := by
  simp only [kept_eq, List.mem_filter, List.all_eq_true, Bool.and_eq_true, bne_iff_ne]

theorem mem_keptOf_iff {d : Definition} {c : Connection} :
    c ∈ keptOf registry d ↔ c ∈ parsed d.connections ∧
      ∀ n ∈ unknown registry d.nodes, c.source ≠ n.id ∧ c.target ≠ n.id :=
  mem_kept_iff

theorem valid_of_document {serial : Nat} {d : Definition} {doc : Document}
    (compiled : document registry serial d = .ok doc) : doc.Valid := by
  obtain ⟨_, _, w, rfl⟩ := document_eq_ok_iff.1 compiled
  exact Document.valid_iff.2 ⟨w, rfl⟩

end MacroGraph.Compile

namespace MacroGraph

/-- The ways to a document: it is built, compiled, or rooted at another start. -/
inductive Document.Obtained : Document → Prop where
  | built {serial : Nat} {nodes : List Node} {connections : List Connection} {start : String}
    {d : Document} (h : Document.build serial nodes connections start = .ok d) : Obtained d
  | compiled {registry : Registry} {serial : Nat} {definition : Definition} {d : Document}
    (h : Compile.document registry serial definition = .ok d) : Obtained d
  | rerooted {d e : Document} {start : String} (from_ : Obtained d)
    (h : d.withStart start = .ok e) : Obtained e

theorem Document.Obtained.valid {d : Document} (obtained : d.Obtained) : d.Valid := by
  induction obtained with
  | built h => exact Document.valid_of_build h
  | compiled h => exact Compile.valid_of_document h
  | rerooted _ h valid => exact Document.valid_of_withStart valid h

end MacroGraph
