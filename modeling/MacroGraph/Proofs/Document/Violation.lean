import MacroGraph.Proofs.Document.WellFormed

/-!
Which error a graph is refused with. A build reports the first thing that is wrong in the order of
its checks. Only the searches for cycles go through tables, which have no order of their own, and
in whatever order they do that the node they name is one that a cycle leads through or a loop that
is entered from its own body: `build_reports_first_violation`.
-/
namespace MacroGraph

/-- What is wrong with a connection, given the connections before it. The checks are made in this
order, and each asks that those above it were passed. -/
inductive Connection.Fault (nodes : List Node) (before : List Connection) (c : Connection) :
    DocumentError → Prop where
  | sourceMissing (missing : ∀ n ∈ nodes, n.id ≠ c.source) :
    Fault nodes before c (.nodeMissing c.source c.target)
  | targetMissing {source : Node} (from_ : source ∈ nodes ∧ source.id = c.source)
    (missing : ∀ n ∈ nodes, n.id ≠ c.target) :
    Fault nodes before c (.nodeMissing c.target c.source)
  | sourceDataOnly {source target : Node} (from_ : source ∈ nodes ∧ source.id = c.source)
    (into : target ∈ nodes ∧ target.id = c.target) (exec : c.flow = .exec)
    (data : source.kind.isDataOnly = true) :
    Fault nodes before c (.badConnection c.source c.sourcePin
      ("'" ++ source.kind.typeName ++ "' nodes have no exec pins"))
  | targetDataOnly {source target : Node} (from_ : source ∈ nodes ∧ source.id = c.source)
    (into : target ∈ nodes ∧ target.id = c.target) (exec : c.flow = .exec)
    (control : source.kind.isDataOnly = false) (data : target.kind.isDataOnly = true) :
    Fault nodes before c (.badConnection c.target c.targetPin
      ("'" ++ target.kind.typeName ++ "' nodes have no exec pins"))
  | outputTaken {source target : Node} (from_ : source ∈ nodes ∧ source.id = c.source)
    (into : target ∈ nodes ∧ target.id = c.target) (exec : c.flow = .exec)
    (control : source.kind.isDataOnly = false ∧ target.kind.isDataOnly = false)
    {b : Connection} (earlier : b ∈ before) (exec' : b.flow = .exec) (same : b.output = c.output) :
    Fault nodes before c (.badConnection c.source c.sourcePin
      "exec output has more than one outgoing connection")

/-- No connection has a fault, given those before it. -/
def Passes (nodes : List Node) (connections : List Connection) : Prop :=
  ∀ before c after, connections = before ++ c :: after → ∀ e, ¬ c.Fault nodes before e

/-- The first thing that is wrong with nodes, connections and a start. -/
inductive FirstViolation (nodes : List Node) (connections : List Connection) (start : String) :
    DocumentError → Prop where
  | duplicate {before after : List Node} {n : Node} (split : nodes = before ++ n :: after)
    (distinct : (before.map Node.id).Nodup) (again : n.id ∈ before.map Node.id) :
    FirstViolation nodes connections start (.duplicateNode n.id)
  | startMissing (distinct : (nodes.map Node.id).Nodup) (missing : ∀ n ∈ nodes, n.id ≠ start) :
    FirstViolation nodes connections start (.startMissing start)
  | notAStart (distinct : (nodes.map Node.id).Nodup) {n : Node} (mem : n ∈ nodes)
    (same : n.id = start) (other : n.kind ≠ .start) :
    FirstViolation nodes connections start (.notAStart start n.kind.typeName)
  | connection (distinct : (nodes.map Node.id).Nodup)
    (starts : ∃ n ∈ nodes, n.id = start ∧ n.kind = .start) {before after : List Connection}
    {c : Connection} {e : DocumentError} (split : connections = before ++ c :: after)
    (passes : Passes nodes before) (fault : c.Fault nodes before e) :
    FirstViolation nodes connections start e
  | dataCycle (distinct : (nodes.map Node.id).Nodup)
    (starts : ∃ n ∈ nodes, n.id = start ∧ n.kind = .start) (passes : Passes nodes connections)
    {id : String} (cycle : Relation.TransGen (Reads nodes connections) id id) :
    FirstViolation nodes connections start (.dataCycle id)
  | loopReentry (distinct : (nodes.map Node.id).Nodup)
    (starts : ∃ n ∈ nodes, n.id = start ∧ n.kind = .start) (passes : Passes nodes connections)
    (acyclic : ∀ id, ¬ Relation.TransGen (Reads nodes connections) id id) {l : Node}
    (mem : l ∈ nodes) (kind : l.kind = .loop ∨ l.kind = .whileLoop) {c : Connection}
    (listed : c ∈ connections) (exec : c.flow = .exec) (out : c.output = (l.id, Pin.loopBody))
    (back : Relation.ReflTransGen (Leads connections) c.target l.id) :
    FirstViolation nodes connections start (.loopReentry l.id)

/-- The same error, but for the node that a search for cycles names. -/
def DocumentError.Alike : DocumentError → DocumentError → Prop
  | .dataCycle _, .dataCycle _ => True
  | .loopReentry _, .loopReentry _ => True
  | e, e' => e = e'

theorem DocumentError.Alike.refl (e : DocumentError) : e.Alike e := by
  cases e <;> trivial

namespace Document
variable {nodes : List Node} {connections : List Connection} {start : String}

/-- Ids are checked in the order of the nodes, and the first to come again is reported. -/
theorem duplicate?_eq_some_iff {seen : List String} {id : String} :
    duplicate? seen nodes = some id ↔ ∃ before n after, nodes = before ++ n :: after ∧
      duplicate? seen before = none ∧ (n.id ∈ seen ∨ n.id ∈ before.map Node.id) ∧ n.id = id := by
  induction nodes generalizing seen with
  | nil => simp [duplicate?]
  | cons n rest ih =>
    by_cases old : n.id ∈ seen
    · simp only [duplicate?, List.contains_iff_mem, old, if_true, Option.some.injEq]
      constructor
      · rintro rfl
        exact ⟨[], n, rest, rfl, rfl, .inl old, rfl⟩
      · rintro ⟨before, m, after, split, passed, again, rfl⟩
        cases before with
        | nil =>
          cases split
          rfl
        | cons m' before =>
          cases split
          simp [duplicate?, old] at passed
    · simp only [duplicate?, List.contains_iff_mem, old, if_false, ih]
      constructor
      · rintro ⟨before, m, after, rfl, passed, again, rfl⟩
        refine ⟨n :: before, m, after, rfl, ?_, ?_, rfl⟩
        · simpa [duplicate?, old] using passed
        · simpa [or_assoc, or_left_comm] using again
      · rintro ⟨before, m, after, split, passed, again, rfl⟩
        cases before with
        | nil =>
          cases split
          simp [old] at again
        | cons m' before =>
          cases split
          refine ⟨before, m, after, rfl, ?_, ?_, rfl⟩
          · simpa [duplicate?, old] using passed
          · simpa [or_assoc, or_left_comm] using again

theorem checkStart_eq_error_iff (distinct : (nodes.map Node.id).Nodup) {e : DocumentError} :
    checkStart nodes start = .error e ↔
      ((∀ n ∈ nodes, n.id ≠ start) ∧ e = .startMissing start) ∨
        ∃ n ∈ nodes, n.id = start ∧ n.kind ≠ .start ∧ e = .notAStart start n.kind.typeName := by
  unfold checkStart
  cases found : nodeIn? nodes start with
  | none =>
    have missing := nodeIn?_eq_none_iff.1 found
    constructor
    · intro refused
      cases refused
      exact .inl ⟨missing, rfl⟩
    · rintro (⟨_, rfl⟩ | ⟨n, mem, same, _⟩)
      · rfl
      · exact absurd same (missing n mem)
  | some n =>
    obtain ⟨mem, rfl⟩ := mem_of_nodeIn? found
    constructor
    · intro refused
      simp only at refused
      split at refused
      · cases refused
      · next other =>
        cases refused
        exact .inr ⟨n, mem, rfl, other, rfl⟩
    · rintro (⟨missing, _⟩ | ⟨m, mem', same, other, rfl⟩)
      · exact absurd rfl (missing n mem)
      · cases List.inj_on_of_nodup_map distinct mem' mem same
        simp [other]

theorem lookup_ofConnections_exec_eq_none_iff {out : String × String} :
    (PinIndex.ofConnections connections).exec.lookup out = none ↔
      ∀ b ∈ connections, b.flow = .exec → b.output ≠ out := by
  rw [PinIndex.ofConnections_exec, List.lookup_eq_none_iff]
  simp only [List.mem_map, List.mem_filter, Connection.isExec, beq_iff_eq, bne_iff_ne]
  constructor
  · intro free b mem exec same
    exact free (b.output, b.target) ⟨b, ⟨mem, exec⟩, rfl⟩ same.symm
  · rintro free _ ⟨b, ⟨mem, exec⟩, rfl⟩ same
    exact free b mem exec same.symm

theorem fault_of_addConnection {before : List Connection} {c : Connection} {e : DocumentError}
    (refused : addConnection nodes (.ofConnections before) c = .error e) :
    c.Fault nodes before e := by
  unfold addConnection at refused
  split at refused
  · next none_found =>
    cases refused
    exact .sourceMissing (nodeIn?_eq_none_iff.1 none_found)
  · next source found none_found =>
    cases refused
    exact .targetMissing (mem_of_nodeIn? found) (nodeIn?_eq_none_iff.1 none_found)
  · next source target found found' =>
    have from_ := mem_of_nodeIn? found
    have into := mem_of_nodeIn? found'
    split at refused
    · next exec =>
      unfold addExec at refused
      split at refused
      · next data =>
        cases refused
        rw [noExecPins, from_.2]
        exact .sourceDataOnly from_ into exec data
      · next control =>
        rw [Bool.not_eq_true] at control
        split at refused
        · next data =>
          cases refused
          rw [noExecPins, into.2]
          exact .targetDataOnly from_ into exec control data
        · next control' =>
          rw [Bool.not_eq_true] at control'
          split at refused
          · next taken =>
            cases refused
            have found : ¬ (PinIndex.ofConnections before).exec.lookup c.output = none := by
              simp [taken]
            rw [lookup_ofConnections_exec_eq_none_iff] at found
            push Not at found
            obtain ⟨b, earlier, exec', same⟩ := found
            exact .outputTaken from_ into exec ⟨control, control'⟩ earlier exec' same
          · cases refused
    · cases refused

theorem addConnection_of_fault (distinct : (nodes.map Node.id).Nodup) {before : List Connection}
    {c : Connection} {e : DocumentError} (fault : c.Fault nodes before e) :
    addConnection nodes (.ofConnections before) c = .error e := by
  cases fault with
  | sourceMissing missing =>
    simp [addConnection, nodeIn?_eq_none_iff.2 missing]
  | targetMissing from_ missing =>
    simp [addConnection, nodeIn?_eq_none_iff.2 missing, (nodeIn?_eq_some_iff distinct).2 from_]
  | sourceDataOnly from_ into exec data =>
    simp [addConnection, (nodeIn?_eq_some_iff distinct).2 from_,
      (nodeIn?_eq_some_iff distinct).2 into, exec, addExec, data, noExecPins, from_.2]
  | targetDataOnly from_ into exec control data =>
    simp [addConnection, (nodeIn?_eq_some_iff distinct).2 from_,
      (nodeIn?_eq_some_iff distinct).2 into, exec, addExec, control, data, noExecPins, into.2]
  | outputTaken from_ into exec control earlier exec' same =>
    cases taken : (PinIndex.ofConnections before).exec.lookup c.output with
    | none => exact absurd same (lookup_ofConnections_exec_eq_none_iff.1 taken _ earlier exec')
    | some target =>
      simp [addConnection, (nodeIn?_eq_some_iff distinct).2 from_,
        (nodeIn?_eq_some_iff distinct).2 into, exec, addExec, control.1, control.2, taken]

theorem addConnections_eq_error_iff {index : PinIndex} {e : DocumentError} :
    addConnections nodes index connections = .error e ↔ ∃ before c after mid,
      connections = before ++ c :: after ∧ addConnections nodes index before = .ok mid ∧
        addConnection nodes mid c = .error e := by
  induction connections generalizing index with
  | nil => simp [addConnections]
  | cons c rest ih =>
    cases first : addConnection nodes index c with
    | error e' =>
      simp only [addConnections, first, Except.error.injEq]
      constructor
      · rintro rfl
        exact ⟨[], c, rest, index, rfl, rfl, first⟩
      · rintro ⟨before, c', after, mid, split, passed, refused⟩
        cases before with
        | nil =>
          cases split
          cases passed
          exact Except.error.inj (first.symm.trans refused)
        | cons b before =>
          cases split
          simp [addConnections, first] at passed
    | ok next =>
      simp only [addConnections, first, ih]
      constructor
      · rintro ⟨before, c', after, mid, rfl, passed, refused⟩
        exact ⟨c :: before, c', after, mid, rfl, by simp [addConnections, first, passed], refused⟩
      · rintro ⟨before, c', after, mid, split, passed, refused⟩
        cases before with
        | nil =>
          cases split
          cases passed
          cases first.symm.trans refused
        | cons b before =>
          cases split
          exact ⟨before, c', after, mid, rfl, by simpa [addConnections, first] using passed, refused⟩

theorem index_of_addConnections {index : PinIndex}
    (added : addConnections nodes {} connections = .ok index) :
    index = .ofConnections connections :=
  (addConnections_eq_ok_iff.1 added).2.2.2

theorem passes_iff (distinct : (nodes.map Node.id).Nodup) :
    Passes nodes connections ↔
      addConnections nodes {} connections = .ok (.ofConnections connections) := by
  constructor
  · intro passes
    cases added : addConnections nodes {} connections with
    | ok index => rw [index_of_addConnections added]
    | error e =>
      obtain ⟨before, c, after, mid, split, passed, refused⟩ := addConnections_eq_error_iff.1 added
      cases index_of_addConnections passed
      exact absurd (fault_of_addConnection refused) (passes before c after split e)
  · intro added before c after split e fault
    have refused := addConnection_of_fault distinct fault
    suffices ∃ e', addConnections nodes {} connections = .error e' by
      obtain ⟨e', failed⟩ := this
      cases added.symm.trans failed
    cases earlier : addConnections nodes {} before with
    | ok mid =>
      cases index_of_addConnections earlier
      exact ⟨e, addConnections_eq_error_iff.2 ⟨before, c, after, _, split, earlier, refused⟩⟩
    | error e' =>
      obtain ⟨first, c', rest, mid, rfl, passed, refused'⟩ := addConnections_eq_error_iff.1 earlier
      refine ⟨e', addConnections_eq_error_iff.2 ⟨first, c', rest ++ c :: after, mid, ?_, passed,
        refused'⟩⟩
      rw [split, List.append_assoc, List.cons_append]

/-- The first connection with a fault is the one that is reported. -/
theorem addConnections_eq_error_iff_fault (distinct : (nodes.map Node.id).Nodup)
    {e : DocumentError} :
    addConnections nodes {} connections = .error e ↔ ∃ before c after,
      connections = before ++ c :: after ∧ Passes nodes before ∧ c.Fault nodes before e := by
  rw [addConnections_eq_error_iff]
  constructor
  · rintro ⟨before, c, after, mid, split, passed, refused⟩
    cases index_of_addConnections passed
    exact ⟨before, c, after, split, (passes_iff distinct).2 passed, fault_of_addConnection refused⟩
  · rintro ⟨before, c, after, split, passes, fault⟩
    exact ⟨before, c, after, _, split, (passes_iff distinct).1 passes,
      addConnection_of_fault distinct fault⟩

end Document

/-- Orders in which the searches for cycles go through what is kept in tables. A table has no order
of its own. -/
structure TableOrder where
  nodes : List Node → List Node
  exec : List ((String × String) × String) → List ((String × String) × String)
  data : List ((String × String) × (String × String)) →
    List ((String × String) × (String × String))
  /-- The names that data cycles are searched from. -/
  roots : List String → List String
  nodes_perm : ∀ ns, (nodes ns).Perm ns
  exec_perm : ∀ es, (exec es).Perm es
  data_perm : ∀ es, (data es).Perm es
  mem_roots : ∀ names a, a ∈ roots names ↔ a ∈ names

namespace TableOrder
variable (o : TableOrder) {nodes : List Node} {connections : List Connection}

def listed : TableOrder where
  nodes := id
  exec := id
  data := id
  roots := id
  nodes_perm := List.Perm.refl
  exec_perm := List.Perm.refl
  data_perm := List.Perm.refl
  mem_roots := fun _ _ => Iff.rfl

def reversed : TableOrder where
  nodes := List.reverse
  exec := List.reverse
  data := List.reverse
  roots := id
  nodes_perm := List.reverse_perm
  exec_perm := List.reverse_perm
  data_perm := List.reverse_perm
  mem_roots := fun _ _ => Iff.rfl

def index (index : PinIndex) : PinIndex := ⟨o.exec index.exec, o.data index.data⟩

def dataCycle? (nodes : List Node) (index : PinIndex) : Option String :=
  let edges := Document.feedEdges nodes (o.index index)
  cycleName? edges (o.roots (edges.map Prod.fst))

def reentered? (nodes : List Node) (index : PinIndex) : Option String :=
  Document.reentered? (o.nodes nodes) (o.index index)

/-- `Document.build` with searches that go through tables in some order. -/
def build (serial : Nat) (nodes : List Node) (connections : List Connection) (start : String) :
    Except DocumentError Document :=
  match Document.duplicate? [] nodes with
  | some id => .error (.duplicateNode id)
  | none =>
    match Document.checkStart nodes start with
    | .error e => .error e
    | .ok () =>
      match Document.addConnections nodes {} connections with
      | .error e => .error e
      | .ok index =>
        match o.dataCycle? nodes index, o.reentered? nodes index with
        | some id, _ => .error (.dataCycle id)
        | none, some id => .error (.loopReentry id)
        | none, none => .ok ⟨serial, nodes, connections, start, index⟩

theorem build_listed (serial : Nat) (nodes : List Node) (connections : List Connection)
    (start : String) :
    listed.build serial nodes connections start = Document.build serial nodes connections start :=
  rfl

theorem mem_feedEdges_index {index : PinIndex} {e : String × String} :
    e ∈ Document.feedEdges nodes (o.index index) ↔ e ∈ Document.feedEdges nodes index := by
  have perm := ((o.data_perm index.data).map fun e => (e.1.1, e.2.1)).filter fun e =>
    Document.isDataOnly nodes e.1 && Document.isDataOnly nodes e.2
  exact perm.mem_iff

theorem mem_execEdges_index {index : PinIndex} {e : String × String} :
    e ∈ Document.execEdges (o.index index) ↔ e ∈ Document.execEdges index :=
  ((o.exec_perm index.exec).map _).mem_iff

theorem lists_reads (distinct : (nodes.map Node.id).Nodup) (a b : String) :
    (a, b) ∈ Document.feedEdges nodes (o.index (.ofConnections connections)) ↔
      Reads nodes connections a b :=
  o.mem_feedEdges_index.trans (Document.mem_feedEdges_iff distinct)

theorem cycle_of_dataCycle? (distinct : (nodes.map Node.id).Nodup) {id : String}
    (found : o.dataCycle? nodes (.ofConnections connections) = some id) :
    Relation.TransGen (Reads nodes connections) id id :=
  (onCycle_iff_transGen (o.lists_reads distinct)).1 (onCycle_of_cycleName? found)

theorem dataCycle?_eq_none_iff (distinct : (nodes.map Node.id).Nodup) :
    o.dataCycle? nodes (.ofConnections connections) = none ↔
      ∀ id, ¬ Relation.TransGen (Reads nodes connections) id id := by
  unfold dataCycle?
  rw [cycleName?_eq_none_iff]
  · exact forall_congr' fun id => not_congr (onCycle_iff_transGen (o.lists_reads distinct))
  · intro e mem
    exact (o.mem_roots _ e.1).2 (List.mem_map_of_mem mem)

theorem lookup_index {index : PinIndex} (distinct : (index.exec.map Prod.fst).Nodup)
    (out : String × String) : (o.index index).exec.lookup out = index.exec.lookup out := by
  have perm := o.exec_perm index.exec
  apply Option.ext
  intro target
  rw [← mem_iff_lookup distinct, ← perm.mem_iff]
  exact (mem_iff_lookup ((perm.map Prod.fst).nodup_iff.2 distinct)).symm

theorem reenters_index
    (single : ((connections.filter Connection.isExec).map Connection.output).Nodup) (n : Node) :
    Document.reenters (o.index (.ofConnections connections)) n =
      Document.reenters (.ofConnections connections) n := by
  have distinct : ((PinIndex.ofConnections connections).exec.map Prod.fst).Nodup := by
    rw [PinIndex.ofConnections_exec, List.map_map]
    exact single
  unfold Document.reenters
  rw [o.lookup_index distinct]
  congr 1
  cases (PinIndex.ofConnections connections).exec.lookup (n.id, Pin.loopBody) with
  | none => rfl
  | some body =>
    rw [Bool.eq_iff_iff, List.contains_iff_mem, List.contains_iff_mem, mem_reachable_iff,
      mem_reachable_iff, path_iff_reflTransGen fun a b => o.mem_execEdges_index,
      path_iff_reflTransGen fun a b => Iff.rfl]

theorem reentered?_eq_none_iff
    (single : ((connections.filter Connection.isExec).map Connection.output).Nodup) :
    o.reentered? nodes (.ofConnections connections) = none ↔
      Document.reentered? nodes (.ofConnections connections) = none := by
  simp only [reentered?, Document.reentered?, Option.map_eq_none_iff, List.find?_eq_none,
    o.reenters_index single, (o.nodes_perm nodes).mem_iff]

theorem exists_of_reentered?
    (single : ((connections.filter Connection.isExec).map Connection.output).Nodup) {id : String}
    (found : o.reentered? nodes (.ofConnections connections) = some id) :
    ∃ l ∈ nodes, l.id = id ∧ (l.kind = .loop ∨ l.kind = .whileLoop) ∧ ∃ c ∈ connections,
      c.flow = .exec ∧ c.output = (l.id, Pin.loopBody) ∧
        Relation.ReflTransGen (Leads connections) c.target l.id := by
  obtain ⟨l, first, rfl⟩ := Option.map_eq_some_iff.1 found
  have mem := (o.nodes_perm nodes).mem_iff.1 (List.mem_of_find?_eq_some first)
  have back := List.find?_some first
  rw [o.reenters_index single, Document.reenters_iff single] at back
  exact ⟨l, mem, rfl, back⟩

variable {serial : Nat} {start : String}

theorem firstViolation_of_build {e : DocumentError}
    (refused : o.build serial nodes connections start = .error e) :
    FirstViolation nodes connections start e := by
  unfold build at refused
  split at refused
  · next id twice =>
    cases refused
    obtain ⟨before, n, after, split, single, again, rfl⟩ :=
      Document.duplicate?_eq_some_iff.1 twice
    have distinct := (Document.duplicate?_eq_none_iff.1 single).2
    exact .duplicate split distinct (again.resolve_left List.not_mem_nil)
  · next single =>
    have distinct := (Document.duplicate?_eq_none_iff.1 single).2
    split at refused
    · next e' fails =>
      cases refused
      obtain ⟨missing, rfl⟩ | ⟨n, mem, same, other, rfl⟩ :=
        (Document.checkStart_eq_error_iff distinct).1 fails
      · exact .startMissing distinct missing
      · exact .notAStart distinct mem same other
    · next checked =>
      have starts := (Document.checkStart_eq_ok_iff distinct).1 checked
      split at refused
      · next e' fails =>
        cases refused
        obtain ⟨before, c, after, split, passes, fault⟩ :=
          (Document.addConnections_eq_error_iff_fault distinct).1 fails
        exact .connection distinct starts split passes fault
      · next index added =>
        cases Document.index_of_addConnections added
        have passes := (Document.passes_iff distinct).2 added
        split at refused
        · next id found =>
          cases refused
          exact .dataCycle distinct starts passes (o.cycle_of_dataCycle? distinct found)
        · next id noCycle found =>
          cases refused
          have single := (Document.addConnections_eq_ok_iff.1 added).2.1
          obtain ⟨l, mem, rfl, kind, c, listed, exec, out, back⟩ :=
            o.exists_of_reentered? single found
          exact .loopReentry distinct starts passes ((o.dataCycle?_eq_none_iff distinct).1 noCycle)
            mem kind listed exec out back
        · cases refused

theorem exists_error_of_firstViolation {e : DocumentError} (serial : Nat)
    (first : FirstViolation nodes connections start e) :
    ∃ e', o.build serial nodes connections start = .error e' ∧ e'.Alike e := by
  have none_twice : ∀ {nodes : List Node}, (nodes.map Node.id).Nodup →
      Document.duplicate? [] nodes = none := fun distinct =>
    Document.duplicate?_eq_none_iff.2 ⟨fun _ _ => List.not_mem_nil, distinct⟩
  unfold build
  cases first with
  | duplicate split distinct again =>
    have twice := Document.duplicate?_eq_some_iff.2
      ⟨_, _, _, split, none_twice distinct, .inr again, rfl⟩
    exact ⟨_, by simp only [twice], .refl _⟩
  | startMissing distinct missing =>
    have fails := (Document.checkStart_eq_error_iff distinct).2 (.inl ⟨missing, rfl⟩)
    exact ⟨_, by simp only [none_twice distinct, fails], .refl _⟩
  | notAStart distinct mem same other =>
    have fails := (Document.checkStart_eq_error_iff distinct).2
      (.inr ⟨_, mem, same, other, rfl⟩)
    exact ⟨_, by simp only [none_twice distinct, fails], .refl _⟩
  | connection distinct starts split passes fault =>
    have checked := (Document.checkStart_eq_ok_iff distinct).2 starts
    have fails := (Document.addConnections_eq_error_iff_fault distinct).2
      ⟨_, _, _, split, passes, fault⟩
    exact ⟨_, by simp only [none_twice distinct, checked, fails], .refl _⟩
  | @dataCycle distinct starts passes id cycle =>
    have checked := (Document.checkStart_eq_ok_iff distinct).2 starts
    have added := (Document.passes_iff distinct).1 passes
    cases found : o.dataCycle? nodes (.ofConnections connections) with
    | none => exact absurd cycle ((o.dataCycle?_eq_none_iff distinct).1 found id)
    | some named =>
      exact ⟨.dataCycle named, by simp only [none_twice distinct, checked, added, found], trivial⟩
  | @loopReentry distinct starts passes acyclic l mem kind c listed exec out back =>
    have checked := (Document.checkStart_eq_ok_iff distinct).2 starts
    have added := (Document.passes_iff distinct).1 passes
    have single := (Document.addConnections_eq_ok_iff.1 added).2.1
    have noCycle := (o.dataCycle?_eq_none_iff distinct).2 acyclic
    cases found : o.reentered? nodes (.ofConnections connections) with
    | none =>
      rw [o.reentered?_eq_none_iff single, Document.reentered?_eq_none_iff single] at found
      exact absurd back (found l mem kind c listed exec out)
    | some named =>
      exact ⟨.loopReentry named,
        by simp only [none_twice distinct, checked, added, noCycle, found], trivial⟩

theorem document_of_build {d : Document}
    (built : o.build serial nodes connections start = .ok d) :
    d = ⟨serial, nodes, connections, start, .ofConnections connections⟩ := by
  unfold build at built
  split at built
  · cases built
  · split at built
    · cases built
    · split at built
      · cases built
      · next index added =>
        cases Document.index_of_addConnections added
        split at built
        · cases built
        · cases built
        · cases built
          rfl

/-- What is accepted in one order is accepted in every other, as the same document. -/
theorem build_of_build {d : Document} (built : o.build serial nodes connections start = .ok d)
    (o' : TableOrder) : o'.build serial nodes connections start = .ok d := by
  cases other : o'.build serial nodes connections start with
  | ok d' => rw [o'.document_of_build other, o.document_of_build built]
  | error e =>
    obtain ⟨_, refused, _⟩ :=
      o.exists_error_of_firstViolation serial (o'.firstViolation_of_build other)
    cases built.symm.trans refused

end TableOrder

/-- A graph is refused with the first thing that is wrong with it, in whatever order the searches for
cycles go through tables. When something is wrong it is refused, with an error that can differ from
any other first violation in the node that a search names and in nothing else. -/
theorem Document.build_reports_first_violation (serial : Nat) (nodes : List Node)
    (connections : List Connection) (start : String) :
    TableOrder.listed.build serial nodes connections start =
        build serial nodes connections start ∧
      ∀ o : TableOrder,
        (∀ e, o.build serial nodes connections start = .error e →
          FirstViolation nodes connections start e) ∧
        (∀ e, FirstViolation nodes connections start e →
          ∃ e', o.build serial nodes connections start = .error e' ∧ e'.Alike e) ∧
        ∀ d, o.build serial nodes connections start = .ok d ↔
          build serial nodes connections start = .ok d := by
  refine ⟨TableOrder.build_listed serial nodes connections start, ?_⟩
  intro o
  refine ⟨fun e => o.firstViolation_of_build, fun e => o.exists_error_of_firstViolation serial, ?_⟩
  intro d
  rw [← TableOrder.build_listed]
  exact ⟨fun built => o.build_of_build built .listed,
    fun built => TableOrder.listed.build_of_build built o⟩

def selfReading : List Node :=
  [⟨"s", .start, []⟩, ⟨"m", .math, []⟩, ⟨"n", .math, []⟩, ⟨"l", .loop, []⟩]

def selfReadingConnections : List Connection :=
  [⟨"m", "Result", "m", "A", .data⟩, ⟨"l", "Loop Body", "l", "exec", .exec⟩,
    ⟨"n", "Result", "n", "B", .data⟩]

/-- Which sum is named depends on the order, but the loop is never named before the sums, and both
are on a cycle. A second loop of the same id comes before all of that. -/
theorem selfReading_violations :
    Document.build 0 selfReading selfReadingConnections "s" = .error (.dataCycle "m") ∧
      TableOrder.reversed.build 0 selfReading selfReadingConnections "s" =
        .error (.dataCycle "n") ∧
      FirstViolation selfReading selfReadingConnections "s" (.dataCycle "m") ∧
      FirstViolation selfReading selfReadingConnections "s" (.dataCycle "n") ∧
      Document.build 0 (selfReading ++ [⟨"l", .loop, []⟩]) selfReadingConnections "m" =
        .error (.duplicateNode "l") ∧
      FirstViolation (selfReading ++ [⟨"l", .loop, []⟩]) selfReadingConnections "m"
        (.duplicateNode "l") := by
  obtain ⟨same, orders⟩ :=
    Document.build_reports_first_violation 0 selfReading selfReadingConnections "s"
  obtain ⟨same', orders'⟩ := Document.build_reports_first_violation 0
    (selfReading ++ [⟨"l", .loop, []⟩]) selfReadingConnections "m"
  have forward : TableOrder.listed.build 0 selfReading selfReadingConnections "s" =
      .error (.dataCycle "m") := by decide +kernel
  have backward : TableOrder.reversed.build 0 selfReading selfReadingConnections "s" =
      .error (.dataCycle "n") := by decide +kernel
  have twice : TableOrder.listed.build 0 (selfReading ++ [⟨"l", .loop, []⟩])
      selfReadingConnections "m" = .error (.duplicateNode "l") := by decide +kernel
  exact ⟨same.symm.trans forward, backward, (orders _).1 _ forward, (orders _).1 _ backward,
    same'.symm.trans twice, (orders' _).1 _ twice⟩

end MacroGraph
