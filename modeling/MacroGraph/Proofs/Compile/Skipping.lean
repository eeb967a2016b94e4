import MacroGraph.Proofs.Compile.Answers

/-!
What skipping does to ids. Entries are skipped one by one, but connections are dropped by id, and
only the ids of what is left have to be distinct. So an entry that is skipped may share its id with
a node, and then takes the connections of that node away: `skipping_goes_by_id`.
-/
namespace MacroGraph.Compile
variable {registry : Registry} {serial : Nat} {d : Definition} {doc : Document}

/-- An entry of unknown type that the start does not reach. -/
def Skipped (registry : Registry) (d : Definition) (n : NodeEntry) : Prop :=
  n ∈ d.nodes ∧ registry.lookup n.typeName = none ∧ ¬ Reached d n.id

def joining (doc : Document) (d : Definition) : List Connection :=
  (parsed d.connections).filter fun c => (doc.node? c.source).isSome && (doc.node? c.target).isSome

def insertEntry (d : Definition) (before : List NodeEntry) (n : NodeEntry)
    (after : List NodeEntry) : Definition :=
  { d with nodes := before ++ n :: after }

theorem kept_eq_self_iff {skipped : List NodeEntry} {cs : List Connection} :
    kept skipped cs = cs ↔ ∀ c ∈ cs, ∀ n ∈ skipped, c.source ≠ n.id ∧ c.target ≠ n.id := by
  simp only [kept_eq, List.filter_eq_self, List.all_eq_true, Bool.and_eq_true, bne_iff_ne]

theorem kept_append_cons (before after : List NodeEntry) (n : NodeEntry) (cs : List Connection) :
    kept (before ++ n :: after) cs = kept [n] (kept (before ++ after) cs) := by
  simp only [kept_eq, List.filter_filter, List.all_append, List.all_cons, List.all_nil,
    Bool.and_true]
  apply List.filter_congr
  intro c _
  ac_rfl

section
variable (compiled : document registry serial d = .ok doc)
include compiled

theorem skipped_iff_mem_unknown {n : NodeEntry} :
    Skipped registry d n ↔ n ∈ unknown registry d.nodes := by
  obtain ⟨_, apart, _, _⟩ := document_eq_ok_iff.1 compiled
  rw [Skipped, mem_unknown_iff, ← and_assoc, and_iff_left_iff_imp]
  intro here
  exact apart n (mem_unknown_iff.2 here)

/-- Of two entries with one id at least one is skipped. -/
theorem skipped_of_same_id :
    d.nodes.Pairwise fun n m => n.id = m.id → Skipped registry d n ∨ Skipped registry d m := by
  obtain ⟨_, _, w, _⟩ := document_eq_ok_iff.1 compiled
  have distinct := w.distinct
  rw [List.Nodup, List.pairwise_map, known, List.pairwise_filterMap] at distinct
  apply distinct.imp_of_mem
  intro n m memn memm differ same
  simp only [skipped_iff_mem_unknown compiled, mem_unknown_iff, memn, memm, true_and]
  cases typen : registry.lookup n.typeName with
  | none => exact .inl rfl
  | some kindn =>
    cases typem : registry.lookup m.typeName with
    | none => exact .inr rfl
    | some kindm =>
      exact absurd same (differ (node n kindn) (by simp [typen]) (node m kindm) (by simp [typem]))

theorem exists_entry_of_node? {id : String} (found : (doc.node? id).isSome = true) :
    ∃ n ∈ d.nodes, n.id = id ∧ registry.lookup n.typeName ≠ none := by
  obtain ⟨n', found⟩ := Option.isSome_iff_exists.1 found
  obtain ⟨mem, rfl⟩ := (valid_of_document compiled).node?_eq_some_iff.1 found
  obtain ⟨_, _, _, rfl⟩ := document_eq_ok_iff.1 compiled
  obtain ⟨n, entry, made⟩ := List.mem_filterMap.1 mem
  obtain ⟨kind, typed, rfl⟩ := Option.map_eq_some_iff.1 made
  exact ⟨n, entry, rfl, by simp [typed]⟩

/-- Of the connections that join its nodes a document has those that no skipped entry takes away. -/
theorem connections_eq_kept_joining :
    doc.connections = kept (unknown registry d.nodes) (joining doc d) := by
  obtain ⟨_, _, w, rfl⟩ := document_eq_ok_iff.1 compiled
  unfold joining kept
  rw [List.filter_comm]
  apply (List.filter_eq_self.2 _).symm
  intro c mem
  obtain ⟨source, target⟩ := w.attached c mem
  obtain ⟨n, source⟩ := exists_nodeIn? source
  obtain ⟨m, target⟩ := exists_nodeIn? target
  simp [Document.node?, source, target]

theorem connections_eq_joining_iff : doc.connections = joining doc d ↔
    ∀ c ∈ joining doc d, ∀ n, Skipped registry d n → c.source ≠ n.id ∧ c.target ≠ n.id := by
  simp only [skipped_iff_mem_unknown compiled]
  rw [connections_eq_kept_joining compiled, kept_eq_self_iff]

theorem connections_eq_joining (distinct : (d.nodes.map NodeEntry.id).Nodup) :
    doc.connections = joining doc d := by
  have apart : ∀ id n, (doc.node? id).isSome = true → Skipped registry d n → id ≠ n.id := by
    rintro _ n found ⟨mem, untyped, _⟩ rfl
    obtain ⟨m, memm, same, typed⟩ := exists_entry_of_node? compiled found
    rw [List.inj_on_of_nodup_map distinct memm mem same] at typed
    exact typed untyped
  apply (connections_eq_joining_iff compiled).2
  intro c mem n skipped
  obtain ⟨source, target⟩ := Bool.and_eq_true_iff.1 (List.mem_filter.1 mem).2
  exact ⟨apart _ n source skipped, apart _ n target skipped⟩

/-- One more entry that is skipped changes nothing but the connections that touch its id. -/
theorem document_insertEntry {before after : List NodeEntry} {n : NodeEntry}
    (entries : d.nodes = before ++ after) (untyped : registry.lookup n.typeName = none)
    (apart : ¬ Reached d n.id) (serial' : Nat) :
    document registry serial' (insertEntry d before n after) =
      Document.build serial' doc.nodes (kept [n] doc.connections) doc.start := by
  obtain ⟨flowing, unreached, _, rfl⟩ := document_eq_ok_iff.1 compiled
  have nodes : known registry (before ++ n :: after) = known registry d.nodes := by
    simp [known, entries, untyped]
  have connections : keptOf registry (insertEntry d before n after) =
      kept [n] (keptOf registry d) := by
    simp only [keptOf, insertEntry, unknown, entries, List.filter_append]
    rw [List.filter_cons_of_pos (by simp [untyped]), kept_append_cons]
  have complete : ∀ m, ¬ Lacks registry (insertEntry d before n after) m := by
    rintro m ⟨mem, untypedm, reached⟩
    have among : m = n ∨ m ∈ d.nodes := by
      simpa [insertEntry, entries, or_left_comm] using mem
    rcases among with rfl | mem
    · exact apart reached
    · exact unreached m (mem_unknown_iff.2 ⟨mem, untypedm⟩) reached
  have read : ∀ c ∈ (insertEntry d before n after).connections, ∃ flow : Flow, flow.Spells c.flow :=
    fun c mem => isSome_ofName?_iff.1 (flowing c mem)
  calc document registry serial' (insertEntry d before n after)
      = Document.build serial' (known registry (before ++ n :: after))
          (keptOf registry (insertEntry d before n after)) d.start :=
        document_of_complete read complete
    _ = Document.build serial' (known registry d.nodes) (kept [n] (keptOf registry d)) d.start := by
        rw [nodes, connections]

end

/-- Two entries can share an id only when at least one of them is skipped. Of the connections between
its nodes a document has those that touch the id of no skipped entry. That is all of them exactly
when no skipped entry has the id of an end of one, so in particular when the ids are distinct. And
whatever id one more entry of unknown type has, as long as the start does not reach it, compiling
with it is building without the connections that touch that id. -/
theorem skipping_goes_by_id (compiled : document registry serial d = .ok doc) :
    (d.nodes.Pairwise fun n m => n.id = m.id → Skipped registry d n ∨ Skipped registry d m) ∧
      doc.connections = kept (unknown registry d.nodes) (joining doc d) ∧
      (doc.connections = joining doc d ↔
        ∀ c ∈ joining doc d, ∀ n, Skipped registry d n → c.source ≠ n.id ∧ c.target ≠ n.id) ∧
      ((d.nodes.map NodeEntry.id).Nodup → doc.connections = joining doc d) ∧
      ∀ before after n, d.nodes = before ++ after → registry.lookup n.typeName = none →
        ¬ Reached d n.id → ∀ serial', document registry serial' (insertEntry d before n after) =
          Document.build serial' doc.nodes (kept [n] doc.connections) doc.start := by
  refine ⟨skipped_of_same_id compiled, connections_eq_kept_joining compiled,
    connections_eq_joining_iff compiled, connections_eq_joining compiled, ?_⟩
  intro before after n entries untyped apart serial'
  exact document_insertEntry compiled entries untyped apart serial'

def waitingBeside : Definition where
  start := "s"
  nodes := [⟨"s", "start", []⟩, ⟨"b", "start", []⟩, ⟨"w", "delay", []⟩]
  connections := [⟨"b", "exec", "w", "exec", "exec"⟩]

def waitingShadowed : Definition :=
  insertEntry waitingBeside [⟨"s", "start", []⟩, ⟨"b", "start", []⟩] ⟨"b", "plugin", []⟩
    [⟨"w", "delay", []⟩]

theorem waitingShadowed_loses_connection :
    ∃ doc doc', document .standard 0 waitingBeside = .ok doc ∧ doc.connections.length = 1 ∧
      doc.connections = joining doc waitingBeside ∧
      document .standard 0 waitingShadowed = .ok doc' ∧ doc'.nodes = doc.nodes ∧
      ¬ (waitingShadowed.nodes.map NodeEntry.id).Nodup ∧ doc'.connections = [] ∧
      doc'.connections ≠ joining doc' waitingShadowed := by
  obtain ⟨doc, compiled⟩ : ∃ doc, document .standard 0 waitingBeside = .ok doc := by
    refine ⟨⟨0, known .standard waitingBeside.nodes, keptOf .standard waitingBeside, "s",
      .ofConnections (keptOf .standard waitingBeside)⟩, ?_⟩
    decide +kernel
  have apart : ¬ Reached waitingBeside "b" := by
    rw [Reached, ← mem_touched_iff]
    decide +kernel
  obtain ⟨_, _, _, all, inserted⟩ := skipping_goes_by_id compiled
  have shadowed : document .standard 0 waitingShadowed = _ :=
    inserted _ _ ⟨"b", "plugin", []⟩ rfl (by decide +kernel) apart 0
  obtain ⟨_, _, _, rfl⟩ := document_eq_ok_iff.1 compiled
  have compiled' : document .standard 0 waitingShadowed = .ok ⟨0, known .standard waitingBeside.nodes,
      [], "s", .ofConnections []⟩ := by
    rw [shadowed]
    decide +kernel
  obtain ⟨_, _, exactly, _, _⟩ := skipping_goes_by_id compiled'
  refine ⟨_, _, compiled, by decide +kernel, all (by decide +kernel), compiled', rfl,
    by decide +kernel, rfl, ?_⟩
  rw [ne_eq, exactly]
  intro untouched
  have skipped : Skipped .standard waitingShadowed ⟨"b", "plugin", []⟩ :=
    ⟨by simp [waitingShadowed, insertEntry], by decide +kernel, apart⟩
  exact (untouched ⟨"b", "exec", "w", "exec", .exec⟩ (by decide +kernel) _ skipped).1 rfl

end MacroGraph.Compile
