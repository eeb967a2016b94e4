import Mathlib.Data.List.Nodup
import Mathlib.Logic.Relation
import MacroGraph.Document

namespace MacroGraph

theorem mem_of_nodeIn? {nodes : List Node} {id : String} {n : Node}
    (h : nodeIn? nodes id = some n) : n ∈ nodes ∧ n.id = id :=
  ⟨List.mem_of_find?_eq_some h, by simpa using List.find?_some h⟩

theorem Document.id_of_node? {d : Document} {id : String} {n : Node} (h : d.node? id = some n) :
    n.id = id :=
  (mem_of_nodeIn? h).2

theorem nodeIn?_eq_none_iff {nodes : List Node} {id : String} :
    nodeIn? nodes id = none ↔ ∀ n ∈ nodes, n.id ≠ id := by
  simp [nodeIn?]

theorem nodeIn?_eq_some_iff {nodes : List Node} (distinct : (nodes.map Node.id).Nodup)
    {id : String} {n : Node} : nodeIn? nodes id = some n ↔ n ∈ nodes ∧ n.id = id := by
  refine ⟨mem_of_nodeIn?, ?_⟩
  rintro ⟨mem, rfl⟩
  cases h : nodeIn? nodes n.id with
  | none => exact absurd rfl (nodeIn?_eq_none_iff.1 h n mem)
  | some m =>
    obtain ⟨memm, same⟩ := mem_of_nodeIn? h
    rw [List.inj_on_of_nodup_map distinct memm mem same]

theorem exists_nodeIn? {nodes : List Node} {id : String} (h : ∃ n ∈ nodes, n.id = id) :
    ∃ n, nodeIn? nodes id = some n := by
  cases found : nodeIn? nodes id with
  | some n => exact ⟨n, rfl⟩
  | none =>
    obtain ⟨n, mem, same⟩ := h
    exact absurd same (nodeIn?_eq_none_iff.1 found n mem)

/-- An association list without repeated names holds what it looks up. -/
theorem mem_iff_lookup {α : Type} {table : List ((String × String) × α)}
    (distinct : (table.map Prod.fst).Nodup) {k : String × String} {v : α} :
    (k, v) ∈ table ↔ table.lookup k = some v := by
  induction table with
  | nil => simp
  | cons e rest ih =>
    obtain ⟨k', v'⟩ := e
    simp only [List.map_cons, List.nodup_cons] at distinct
    by_cases same : k = k'
    · subst same
      have out : (k, v) ∉ rest := fun mem => distinct.1 (List.mem_map.2 ⟨(k, v), mem, rfl⟩)
      simp [out, eq_comm]
    · have no : (k == k') = false := by simpa using same
      simp [List.lookup_cons, no, same, ih distinct.2]

def Joins (nodes : List Node) (c : Connection) : Prop :=
  ∃ source target, nodeIn? nodes c.source = some source ∧ nodeIn? nodes c.target = some target ∧
    (c.flow = .exec → source.kind.isDataOnly = false ∧ target.kind.isDataOnly = false)

/-- The first data connection into an input pin. -/
def firstInto? (connections : List Connection) (pin : String × String) : Option Connection :=
  connections.find? fun c => c.isData && c.input == pin

namespace PinIndex

def add (index : PinIndex) (c : Connection) : PinIndex :=
  match c.flow with
  | .exec => { index with exec := index.exec ++ [(c.output, c.target)] }
  | .data => Document.addData index c

def ofConnections (connections : List Connection) : PinIndex := connections.foldl add {}

theorem add_exec (index : PinIndex) (c : Connection) :
    (index.add c).exec = index.exec ++ if c.isExec then [(c.output, c.target)] else [] := by
  obtain ⟨_, _, _, _, flow⟩ := c
  cases flow with
  | exec => rfl
  | data =>
    simp only [add, Document.addData, Connection.isExec]
    split <;> simp

theorem foldl_add_exec (connections : List Connection) (index : PinIndex) :
    (connections.foldl add index).exec =
      index.exec ++ (connections.filter Connection.isExec).map fun c => (c.output, c.target) := by
  induction connections generalizing index with
  | nil => simp
  | cons c rest ih =>
    rw [List.foldl_cons, ih, add_exec, List.append_assoc, List.filter_cons]
    split <;> simp

theorem lookup_add_data (index : PinIndex) (c : Connection) (pin : String × String) :
    (index.add c).data.lookup pin =
      (index.data.lookup pin).or (if c.isData && c.input == pin then some c.output else none) := by
  obtain ⟨source, sourcePin, target, targetPin, flow⟩ := c
  cases flow with
  | exec => simp [add, Connection.isData]
  | data =>
    simp only [add, Document.addData, Connection.isData, beq_self_eq_true, Bool.true_and]
    by_cases same : pin = (target, targetPin)
    · subst same
      cases h : index.data.lookup (target, targetPin) with
      | some _ => simp [Connection.input, h]
      | none => simp [Connection.input, h, List.lookup_append]
    · have no : (pin == (target, targetPin)) = false := by simpa using same
      have no' : ((target, targetPin) == pin) = false := by simpa using fun h => same h.symm
      simp only [Connection.input, no']
      split
      · simp
      · simp [List.lookup_append, List.lookup_cons, no]

theorem lookup_foldl_add_data (connections : List Connection) (index : PinIndex)
    (pin : String × String) :
    (connections.foldl add index).data.lookup pin =
      (index.data.lookup pin).or ((firstInto? connections pin).map Connection.output) := by
  induction connections generalizing index with
  | nil => simp [firstInto?]
  | cons c rest ih =>
    rw [List.foldl_cons, ih, lookup_add_data, Option.or_assoc]
    congr 1
    unfold firstInto?
    rw [List.find?_cons]
    cases c.isData && c.input == pin <;> simp

theorem distinct_add_data (index : PinIndex) (c : Connection)
    (distinct : (index.data.map Prod.fst).Nodup) :
    ((index.add c).data.map Prod.fst).Nodup := by
  obtain ⟨_, _, _, _, flow⟩ := c
  cases flow with
  | exec => exact distinct
  | data =>
    simp only [add, Document.addData]
    split
    · exact distinct
    · next new =>
      rw [List.map_append, List.nodup_append]
      refine ⟨distinct, by simp, ?_⟩
      intro k mem k' mem' same
      obtain ⟨⟨k, v⟩, here, rfl⟩ := List.mem_map.1 mem
      simp only [List.map_cons, List.map_nil, List.mem_singleton] at mem'
      have key : k = _ := same.trans mem'
      rw [mem_iff_lookup distinct, key, new] at here
      cases here

theorem distinct_foldl_add_data (connections : List Connection) (index : PinIndex)
    (distinct : (index.data.map Prod.fst).Nodup) :
    ((connections.foldl add index).data.map Prod.fst).Nodup := by
  induction connections generalizing index with
  | nil => exact distinct
  | cons c rest ih => exact ih _ (distinct_add_data index c distinct)

theorem ofConnections_exec (connections : List Connection) :
    (ofConnections connections).exec =
      (connections.filter Connection.isExec).map fun c => (c.output, c.target) := by
  simp [ofConnections, foldl_add_exec]

/-- Of the data connections into a pin the first one is kept. -/
theorem lookup_ofConnections_data (connections : List Connection) (pin : String × String) :
    (ofConnections connections).data.lookup pin =
      (firstInto? connections pin).map Connection.output := by
  simp [ofConnections, lookup_foldl_add_data]

theorem mem_ofConnections_data {connections : List Connection} {pin out : String × String} :
    (pin, out) ∈ (ofConnections connections).data ↔
      (firstInto? connections pin).map Connection.output = some out := by
  rw [← lookup_ofConnections_data]
  exact mem_iff_lookup (distinct_foldl_add_data connections {} List.nodup_nil)

theorem lookup_ofConnections_exec {connections : List Connection}
    (single : ((connections.filter Connection.isExec).map Connection.output).Nodup)
    {out : String × String} {target : String} :
    (ofConnections connections).exec.lookup out = some target ↔
      ∃ c ∈ connections, c.flow = .exec ∧ c.output = out ∧ c.target = target := by
  have distinct : ((ofConnections connections).exec.map Prod.fst).Nodup := by
    rw [ofConnections_exec, List.map_map]
    exact single
  rw [← mem_iff_lookup distinct, ofConnections_exec]
  simp only [List.mem_map, List.mem_filter, Connection.isExec, beq_iff_eq, Prod.mk.injEq]
  constructor
  · rintro ⟨c, ⟨mem, exec⟩, same, rfl⟩
    exact ⟨c, mem, exec, same, rfl⟩
  · rintro ⟨c, mem, exec, same, rfl⟩
    exact ⟨c, ⟨mem, exec⟩, same, rfl⟩

end PinIndex

namespace Document

theorem addConnection_eq_ok_iff {nodes : List Node} {index next : PinIndex} {c : Connection} :
    addConnection nodes index c = .ok next ↔
      Joins nodes c ∧ (c.flow = .exec → index.exec.lookup c.output = none) ∧
        next = index.add c := by
  unfold addConnection Joins PinIndex.add
  cases source : nodeIn? nodes c.source with
  | none => simp
  | some n =>
    cases target : nodeIn? nodes c.target with
    | none => simp
    | some m =>
      cases flow : c.flow with
      | data => simp [eq_comm (b := next)]
      | exec =>
        simp only [addExec]
        split
        · next only => simp [only]
        · next pins =>
          split
          · next only => simp [only]
          · next pins' =>
            cases taken : index.exec.lookup c.output with
            | some _ => simp
            | none => simp [pins, pins', eq_comm (b := next)]

/-- What the outputs taken so far ask of later exec connections. -/
theorem lookup_add_exec_eq_none {index : PinIndex} {c : Connection} {out : String × String} :
    (index.add c).exec.lookup out = none ↔
      index.exec.lookup out = none ∧ ¬ (c.flow = .exec ∧ c.output = out) := by
  rw [PinIndex.add_exec, List.lookup_append, Option.or_eq_none_iff]
  apply and_congr_right
  intro _
  by_cases exec : c.flow = .exec
  · by_cases same : out = c.output
    · simp [Connection.isExec, exec, same]
    · have no : (out == c.output) = false := by simpa using same
      simp [Connection.isExec, exec, List.lookup_cons, no, Ne.symm same]
  · simp [Connection.isExec, exec]

theorem addConnections_eq_ok_iff {nodes : List Node} {index final : PinIndex}
    {connections : List Connection} :
    addConnections nodes index connections = .ok final ↔
      (∀ c ∈ connections, Joins nodes c) ∧
        ((connections.filter Connection.isExec).map Connection.output).Nodup ∧
        (∀ c ∈ connections, c.flow = .exec → index.exec.lookup c.output = none) ∧
        final = connections.foldl PinIndex.add index := by
  induction connections generalizing index with
  | nil => simp [addConnections, eq_comm]
  | cons c rest ih =>
    cases first : addConnection nodes index c with
    | error e =>
      have fails : ¬ (Joins nodes c ∧ (c.flow = .exec → index.exec.lookup c.output = none)) := by
        rintro ⟨joins, free⟩
        have := addConnection_eq_ok_iff.2 ⟨joins, free, rfl⟩
        rw [first] at this
        cases this
      simp only [addConnections, first, List.mem_cons, forall_eq_or_imp]
      constructor
      · intro h
        cases h
      · rintro ⟨⟨joins, _⟩, _, ⟨free, _⟩, _⟩
        exact absurd ⟨joins, free⟩ fails
    | ok next =>
      obtain ⟨joins, free, rfl⟩ := addConnection_eq_ok_iff.1 first
      simp only [addConnections, first, ih, List.mem_cons, forall_eq_or_imp, List.foldl_cons,
        lookup_add_exec_eq_none]
      constructor
      · rintro ⟨all, distinct, apart, rfl⟩
        refine ⟨⟨joins, all⟩, ?_, ⟨free, fun d mem exec => (apart d mem exec).1⟩, rfl⟩
        rw [List.filter_cons]
        split
        · next exec =>
          refine List.nodup_cons.2 ⟨fun taken => ?_, distinct⟩
          obtain ⟨d, mem, same⟩ := List.mem_map.1 taken
          obtain ⟨mem, execd⟩ := List.mem_filter.1 mem
          exact (apart d mem (by simpa [Connection.isExec] using execd)).2
            ⟨by simpa [Connection.isExec] using exec, same.symm⟩
        · exact distinct
      · rintro ⟨⟨_, all⟩, distinct, ⟨_, free'⟩, rfl⟩
        refine ⟨all, ?_, fun d mem exec => ⟨free' d mem exec, ?_⟩, rfl⟩
        · exact distinct.sublist (((List.sublist_cons_self c rest).filter _).map _)
        · rintro ⟨execc, same⟩
          rw [List.filter_cons, if_pos (by simpa [Connection.isExec] using execc)] at distinct
          refine (List.nodup_cons.1 distinct).1 (List.mem_map.2 ⟨d, ?_, same.symm⟩)
          exact List.mem_filter.2 ⟨mem, by simpa [Connection.isExec] using exec⟩

end Document
end MacroGraph
