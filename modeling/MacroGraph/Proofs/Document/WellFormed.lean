import MacroGraph.Proofs.Document.Index
import MacroGraph.Proofs.Graph.Cycle

/-!
Which nodes and connections make a document. `WellFormed` says it without any search, and
`build_ok_iff_wellFormed` that building accepts exactly that.
-/
namespace MacroGraph

/-- The node of an id only produces data. -/
def ProducesData (nodes : List Node) (id : String) : Prop :=
  ∃ n ∈ nodes, n.id = id ∧ n.kind.isDataOnly = true

/-- A data-only node reads another through the first data connection into some pin. -/
def Reads (nodes : List Node) (connections : List Connection) (reader source : String) : Prop :=
  (∃ pin c, firstInto? connections (reader, pin) = some c ∧ c.source = source) ∧
    ProducesData nodes reader ∧ ProducesData nodes source

def Leads (connections : List Connection) (a b : String) : Prop :=
  ∃ c ∈ connections, c.flow = .exec ∧ c.source = a ∧ c.target = b

/-- What is asked of nodes and connections, whatever the start. -/
structure Consistent (nodes : List Node) (connections : List Connection) : Prop where
  distinct : (nodes.map Node.id).Nodup
  attached : ∀ c ∈ connections, (∃ n ∈ nodes, n.id = c.source) ∧ ∃ n ∈ nodes, n.id = c.target
  /-- No exec connection has a data-only node at either end. -/
  execPins : ∀ c ∈ connections, c.flow = .exec →
    ¬ ProducesData nodes c.source ∧ ¬ ProducesData nodes c.target
  /-- No two exec connections leave one output. -/
  single : ((connections.filter Connection.isExec).map Connection.output).Nodup
  acyclic : ∀ id, ¬ Relation.TransGen (Reads nodes connections) id id
  /-- No body of a loop leads back to the loop. -/
  noReentry : ∀ l ∈ nodes, l.kind = .loop ∨ l.kind = .whileLoop → ∀ c ∈ connections,
    c.flow = .exec → c.output = (l.id, Pin.loopBody) →
    ¬ Relation.ReflTransGen (Leads connections) c.target l.id

/-- What is asked of nodes, connections and a start. -/
structure WellFormed (nodes : List Node) (connections : List Connection) (start : String) :
    Prop extends Consistent nodes connections where
  starts : ∃ n ∈ nodes, n.id = start ∧ n.kind = .start

theorem WellFormed.perm {nodes nodes' : List Node} {connections : List Connection} {start : String}
    (w : WellFormed nodes connections start) (perm : nodes'.Perm nodes) :
    WellFormed nodes' connections start := by
  have data : ProducesData nodes' = ProducesData nodes := by
    funext id
    simp only [ProducesData, perm.mem_iff]
  have reads : Reads nodes' connections = Reads nodes connections := by
    funext reader source
    simp only [Reads, data]
  exact {
    distinct := (perm.map Node.id).nodup_iff.2 w.distinct
    attached := by simpa only [perm.mem_iff] using w.attached
    execPins := by simpa only [data] using w.execPins
    single := w.single
    acyclic := by simpa only [reads] using w.acyclic
    noReentry := by simpa only [perm.mem_iff] using w.noReentry
    starts := by simpa only [perm.mem_iff] using w.starts }

namespace Document

theorem duplicate?_eq_none_iff {seen : List String} {nodes : List Node} :
    duplicate? seen nodes = none ↔ (∀ n ∈ nodes, n.id ∉ seen) ∧ (nodes.map Node.id).Nodup := by
  induction nodes generalizing seen with
  | nil => simp [duplicate?]
  | cons n rest ih =>
    by_cases old : n.id ∈ seen
    · simp [duplicate?, old]
    · simp only [duplicate?, List.contains_iff_mem, old, if_false, ih, List.mem_cons, not_or,
        forall_eq_or_imp, not_false_eq_true, true_and, List.map_cons, List.nodup_cons,
        List.mem_map, not_exists, not_and, forall_and]
      tauto

theorem checkStart_eq_ok_iff {nodes : List Node} (distinct : (nodes.map Node.id).Nodup)
    {start : String} :
    checkStart nodes start = .ok () ↔ ∃ n ∈ nodes, n.id = start ∧ n.kind = .start := by
  unfold checkStart
  cases found : nodeIn? nodes start with
  | none =>
    simp only [reduceCtorEq, false_iff, not_exists, not_and]
    exact fun n mem same => absurd same (nodeIn?_eq_none_iff.1 found n mem)
  | some n =>
    obtain ⟨mem, same⟩ := mem_of_nodeIn? found
    simp only
    split
    · next starts => simpa using ⟨n, mem, same, starts⟩
    · next other =>
      simp only [reduceCtorEq, false_iff, not_exists, not_and]
      intro m memm samem
      rw [List.inj_on_of_nodup_map distinct memm mem (samem.trans same.symm)]
      exact other

theorem isDataOnly_iff {nodes : List Node} (distinct : (nodes.map Node.id).Nodup) {id : String} :
    isDataOnly nodes id = true ↔ ProducesData nodes id := by
  unfold isDataOnly
  constructor
  · intro h
    cases found : nodeIn? nodes id with
    | none => simp [found] at h
    | some n =>
      obtain ⟨mem, same⟩ := mem_of_nodeIn? found
      exact ⟨n, mem, same, by simpa [found] using h⟩
  · rintro ⟨n, mem, same, data⟩
    simp [(nodeIn?_eq_some_iff distinct).2 ⟨mem, same⟩, data]

theorem joins_iff {nodes : List Node} (distinct : (nodes.map Node.id).Nodup) {c : Connection} :
    Joins nodes c ↔
      ((∃ n ∈ nodes, n.id = c.source) ∧ ∃ n ∈ nodes, n.id = c.target) ∧
        (c.flow = .exec → ¬ ProducesData nodes c.source ∧ ¬ ProducesData nodes c.target) := by
  simp only [← isDataOnly_iff distinct, isDataOnly]
  constructor
  · rintro ⟨n, m, source, target, pins⟩
    refine ⟨⟨⟨n, mem_of_nodeIn? source⟩, m, mem_of_nodeIn? target⟩, ?_⟩
    intro exec
    simp [source, target, pins exec]
  · rintro ⟨⟨source, target⟩, pins⟩
    obtain ⟨n, source⟩ := exists_nodeIn? source
    obtain ⟨m, target⟩ := exists_nodeIn? target
    refine ⟨n, m, source, target, ?_⟩
    intro exec
    simpa [source, target] using pins exec

/-- The edges that are searched for cycles are those that evaluation follows. -/
theorem mem_feedEdges_iff {nodes : List Node} (distinct : (nodes.map Node.id).Nodup)
    {connections : List Connection} {a b : String} :
    (a, b) ∈ feedEdges nodes (.ofConnections connections) ↔ Reads nodes connections a b := by
  simp only [feedEdges, List.mem_filter, List.mem_map, Bool.and_eq_true, isDataOnly_iff distinct,
    Reads, Prod.mk.injEq]
  apply and_congr_left
  intro _
  constructor
  · rintro ⟨⟨⟨_, pin⟩, out⟩, mem, rfl, rfl⟩
    obtain ⟨c, first, rfl⟩ := Option.map_eq_some_iff.1 (PinIndex.mem_ofConnections_data.1 mem)
    exact ⟨pin, c, first, rfl⟩
  · rintro ⟨pin, c, first, rfl⟩
    exact ⟨((a, pin), c.output), PinIndex.mem_ofConnections_data.2 (by simp [first]), rfl, rfl⟩

theorem mem_execEdges_iff {connections : List Connection} {a b : String} :
    (a, b) ∈ execEdges (.ofConnections connections) ↔ Leads connections a b := by
  simp only [execEdges, PinIndex.ofConnections_exec, List.mem_map, List.mem_filter,
    Connection.isExec, beq_iff_eq, Leads, Prod.mk.injEq]
  constructor
  · rintro ⟨_, ⟨c, ⟨mem, exec⟩, rfl⟩, rfl, rfl⟩
    exact ⟨c, mem, exec, rfl, rfl⟩
  · rintro ⟨c, mem, exec, rfl, rfl⟩
    exact ⟨_, ⟨c, ⟨mem, exec⟩, rfl⟩, rfl, rfl⟩

theorem dataCycle?_eq_none_iff {nodes : List Node} (distinct : (nodes.map Node.id).Nodup)
    {connections : List Connection} :
    dataCycle? nodes (.ofConnections connections) = none ↔
      ∀ id, ¬ Relation.TransGen (Reads nodes connections) id id := by
  have covered : ∀ e ∈ feedEdges nodes (.ofConnections connections),
      e.1 ∈ (feedEdges nodes (.ofConnections connections)).map Prod.fst :=
    fun e mem => List.mem_map_of_mem mem
  unfold dataCycle?
  rw [cycleName?_eq_none_iff covered]
  exact forall_congr' fun id =>
    not_congr (onCycle_iff_transGen fun a b => mem_feedEdges_iff distinct)

theorem reenters_iff {connections : List Connection}
    (single : ((connections.filter Connection.isExec).map Connection.output).Nodup) {l : Node} :
    reenters (.ofConnections connections) l = true ↔
      (l.kind = .loop ∨ l.kind = .whileLoop) ∧ ∃ c ∈ connections,
        c.flow = .exec ∧ c.output = (l.id, Pin.loopBody) ∧
          Relation.ReflTransGen (Leads connections) c.target l.id := by
  unfold reenters
  rw [Bool.and_eq_true, NodeKind.isLoop_iff]
  apply and_congr_right
  intro _
  have path : ∀ a b, Path (execEdges (.ofConnections connections)) a b ↔
      Relation.ReflTransGen (Leads connections) a b :=
    fun a b => path_iff_reflTransGen fun a b => mem_execEdges_iff
  split
  · next none_found =>
    simp only [Bool.false_eq_true, false_iff]
    rintro ⟨c, mem, exec, out, _⟩
    have := (PinIndex.lookup_ofConnections_exec single).2 ⟨c, mem, exec, out, rfl⟩
    rw [none_found] at this
    cases this
  · next body found =>
    rw [List.contains_iff_mem, mem_reachable_iff, path]
    constructor
    · intro back
      obtain ⟨c, mem, exec, out, rfl⟩ := (PinIndex.lookup_ofConnections_exec single).1 found
      exact ⟨c, mem, exec, out, back⟩
    · rintro ⟨c, mem, exec, out, back⟩
      have := (PinIndex.lookup_ofConnections_exec single).2 ⟨c, mem, exec, out, rfl⟩
      rw [found] at this
      cases this
      exact back

theorem reentered?_eq_none_iff {nodes : List Node} {connections : List Connection}
    (single : ((connections.filter Connection.isExec).map Connection.output).Nodup) :
    reentered? nodes (.ofConnections connections) = none ↔
      ∀ l ∈ nodes, l.kind = .loop ∨ l.kind = .whileLoop → ∀ c ∈ connections,
        c.flow = .exec → c.output = (l.id, Pin.loopBody) →
        ¬ Relation.ReflTransGen (Leads connections) c.target l.id := by
  simp only [reentered?, Option.map_eq_none_iff, List.find?_eq_none, reenters_iff single,
    not_and, not_exists]

/-- Of what is consistent a document is made at every start that passes its own check. -/
theorem build_of_consistent {nodes : List Node} {connections : List Connection}
    (consistent : Consistent nodes connections) (serial : Nat) (start : String) :
    build serial nodes connections start = (checkStart nodes start).map fun _ =>
      ⟨serial, nodes, connections, start, .ofConnections connections⟩ := by
  have double : duplicate? [] nodes = none :=
    duplicate?_eq_none_iff.2 ⟨fun _ _ => List.not_mem_nil, consistent.distinct⟩
  have added : addConnections nodes {} connections = .ok (.ofConnections connections) :=
    addConnections_eq_ok_iff.2 ⟨fun c mem => (joins_iff consistent.distinct).2
      ⟨consistent.attached c mem, consistent.execPins c mem⟩, consistent.single, by simp, rfl⟩
  have noCycle := (dataCycle?_eq_none_iff consistent.distinct).2 consistent.acyclic
  have noReentry := (reentered?_eq_none_iff consistent.single).2 consistent.noReentry
  unfold build
  simp only [double, added, noCycle, noReentry]
  cases checkStart nodes start <;> rfl

theorem build_eq_ok_iff {serial : Nat} {nodes : List Node} {connections : List Connection}
    {start : String} {d : Document} :
    build serial nodes connections start = .ok d ↔
      WellFormed nodes connections start ∧
        d = ⟨serial, nodes, connections, start, .ofConnections connections⟩ := by
  constructor
  · intro h
    unfold build at h
    split at h
    · cases h
    · next double =>
      obtain ⟨_, distinct⟩ := duplicate?_eq_none_iff.1 double
      split at h
      · cases h
      · next first =>
        split at h
        · cases h
        · next index added =>
          obtain ⟨joins, single, _, rfl⟩ := addConnections_eq_ok_iff.1 added
          have ends := fun c mem => (joins_iff distinct).1 (joins c mem)
          split at h
          · cases h
          · cases h
          · next noCycle noReentry =>
            cases h
            exact ⟨{
              distinct
              starts := (checkStart_eq_ok_iff distinct).1 first
              attached := fun c mem => (ends c mem).1
              execPins := fun c mem => (ends c mem).2
              single
              acyclic := (dataCycle?_eq_none_iff distinct).1 noCycle
              noReentry := (reentered?_eq_none_iff single).1 noReentry }, rfl⟩
  · rintro ⟨w, rfl⟩
    have first : checkStart nodes start = .ok () := (checkStart_eq_ok_iff w.distinct).2 w.starts
    rw [build_of_consistent w.toConsistent, first]
    rfl

/-- Building accepts exactly what is well formed, and the searches it makes for that come to
an end in every graph, from whatever names they start. -/
theorem build_ok_iff_wellFormed (serial : Nat) (nodes : List Node)
    (connections : List Connection) (start : String) :
    ((∃ d, build serial nodes connections start = .ok d) ↔
      WellFormed nodes connections start) ∧
    (∀ edges roots, (Descent.final edges roots).step? edges = none) ∧
    (∀ edges body, (Spread.final edges body).step? edges = none) := by
  refine ⟨⟨?_, fun w => ⟨_, build_eq_ok_iff.2 ⟨w, rfl⟩⟩⟩, Descent.final_rests,
    Spread.final_rests⟩
  rintro ⟨d, h⟩
  exact (build_eq_ok_iff.1 h).1

/-- A loop may count on its own index, but its body may not lead back to it. -/
theorem counting_loop_wellFormed :
    WellFormed [⟨"s", .start, []⟩, ⟨"l", .loop, []⟩, ⟨"m", .math, []⟩, ⟨"w", .delay, []⟩]
        [⟨"s", "exec", "l", "exec", .exec⟩, ⟨"l", "Index", "m", "B", .data⟩,
          ⟨"m", "Result", "l", "Iterations", .data⟩, ⟨"l", "Loop Body", "w", "exec", .exec⟩] "s" ∧
      ¬ WellFormed [⟨"s", .start, []⟩, ⟨"l", .loop, []⟩, ⟨"w", .delay, []⟩]
        [⟨"s", "exec", "l", "exec", .exec⟩, ⟨"l", "Loop Body", "w", "exec", .exec⟩,
          ⟨"w", "exec", "l", "exec", .exec⟩] "s" := by
  constructor
  · exact (build_ok_iff_wellFormed 0 _ _ _).1.1 ⟨_, rfl⟩
  · intro wellFormed
    obtain ⟨d, built⟩ := (build_ok_iff_wellFormed 0 _ _ _).1.2 wellFormed
    have refused : build 0 [⟨"s", .start, []⟩, ⟨"l", .loop, []⟩, ⟨"w", .delay, []⟩]
        [⟨"s", "exec", "l", "exec", .exec⟩, ⟨"l", "Loop Body", "w", "exec", .exec⟩,
          ⟨"w", "exec", "l", "exec", .exec⟩] "s" = .error (.loopReentry "l") := by decide
    rw [refused] at built
    cases built

example :
    build 0 [⟨"s", .start, []⟩, ⟨"m", .math, []⟩] [⟨"m", "Result", "m", "A", .data⟩] "s" =
      .error (.dataCycle "m") := by decide

def Valid (d : Document) : Prop := build d.serial d.nodes d.connections d.start = .ok d

theorem valid_iff {d : Document} :
    d.Valid ↔ WellFormed d.nodes d.connections d.start ∧ d.index = .ofConnections d.connections := by
  obtain ⟨serial, nodes, connections, start, index⟩ := d
  simp [Valid, build_eq_ok_iff]

theorem valid_of_build {serial : Nat} {nodes : List Node} {connections : List Connection}
    {start : String} {d : Document} (h : build serial nodes connections start = .ok d) :
    d.Valid := by
  obtain ⟨w, rfl⟩ := build_eq_ok_iff.1 h
  exact valid_iff.2 ⟨w, rfl⟩

theorem valid_of_withStart {d e : Document} {start : String} (valid : d.Valid)
    (h : d.withStart start = .ok e) : e.Valid := by
  obtain ⟨w, indexed⟩ := valid_iff.1 valid
  unfold withStart at h
  split at h
  · cases h
  · next starts =>
    cases h
    exact valid_iff.2 ⟨{ w with starts := (checkStart_eq_ok_iff w.distinct).1 starts }, indexed⟩

namespace Valid
variable {d : Document}

theorem node?_eq_some_iff (valid : d.Valid) {id : String} {n : Node} :
    d.node? id = some n ↔ n ∈ d.nodes ∧ n.id = id :=
  nodeIn?_eq_some_iff (valid_iff.1 valid).1.distinct

theorem nextExec_eq_some_iff (valid : d.Valid) {id pin target : String} :
    d.nextExec id pin = some target ↔
      ∃ c ∈ d.connections, c.flow = .exec ∧ c.output = (id, pin) ∧ c.target = target := by
  obtain ⟨w, indexed⟩ := valid_iff.1 valid
  rw [nextExec, indexed, PinIndex.lookup_ofConnections_exec w.single]

theorem nextExec_eq_none_iff (valid : d.Valid) {id pin : String} :
    d.nextExec id pin = none ↔ ∀ c ∈ d.connections, c.flow = .exec → c.output ≠ (id, pin) := by
  rw [Option.eq_none_iff_forall_ne_some]
  constructor
  · intro none c mem exec out
    exact none c.target (valid.nextExec_eq_some_iff.2 ⟨c, mem, exec, out, rfl⟩)
  · intro unused target next
    obtain ⟨c, mem, exec, out, _⟩ := valid.nextExec_eq_some_iff.1 next
    exact unused c mem exec out

theorem leads (valid : d.Valid) {id pin target : String}
    (next : d.nextExec id pin = some target) : Leads d.connections id target := by
  obtain ⟨c, mem, exec, out, into⟩ := valid.nextExec_eq_some_iff.1 next
  exact ⟨c, mem, exec, congrArg Prod.fst out, into⟩

theorem exists_start (valid : d.Valid) : ∃ n, d.node? d.start = some n ∧ n.kind = .start := by
  obtain ⟨n, mem, same, start⟩ := (valid_iff.1 valid).1.starts
  exact ⟨n, valid.node?_eq_some_iff.2 ⟨mem, same⟩, start⟩

theorem exists_target (valid : d.Valid) {id pin target : String}
    (next : d.nextExec id pin = some target) :
    ∃ n, d.node? target = some n ∧ n.kind.isDataOnly = false := by
  obtain ⟨c, mem, exec, _, rfl⟩ := valid.nextExec_eq_some_iff.1 next
  have wellFormed := (valid_iff.1 valid).1
  obtain ⟨_, n, known, same⟩ := wellFormed.attached c mem
  refine ⟨n, valid.node?_eq_some_iff.2 ⟨known, same⟩, ?_⟩
  rw [← Bool.not_eq_true]
  exact fun data => (wellFormed.execPins c mem exec).2 ⟨n, known, same, data⟩

theorem not_reentered (valid : d.Valid) {l : Node} {body : String}
    (found : d.node? l.id = some l) (kind : l.kind.isLoop = true)
    (next : d.nextExec l.id Pin.loopBody = some body) :
    ¬ Relation.ReflTransGen (Leads d.connections) body l.id := by
  obtain ⟨c, mem, exec, out, rfl⟩ := valid.nextExec_eq_some_iff.1 next
  exact (valid_iff.1 valid).1.noReentry l (valid.node?_eq_some_iff.1 found).1
    (NodeKind.isLoop_iff.1 kind) c mem exec out

end Valid
end Document
end MacroGraph
