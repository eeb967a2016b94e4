import MacroGraph.Proofs.Compile
import MacroGraph.Proofs.Engine.SameRuns

/-!
What compiling leaves out is never missed. The nodes that a start reaches are all kept with the
connections that a run follows from them, and no run meets any other node:
`document_prunes_unmet`.
-/
namespace MacroGraph

def firstOut? (connections : List Connection) (pin : String × String) : Option Connection :=
  connections.find? fun c => c.isExec && c.output == pin

theorem PinIndex.lookup_exec (connections : List Connection) (pin : String × String) :
    (ofConnections connections).exec.lookup pin =
      (firstOut? connections pin).map Connection.target := by
  rw [ofConnections_exec]
  induction connections with
  | nil => rfl
  | cons c rest ih =>
    unfold firstOut? at ih ⊢
    rw [List.filter_cons, List.find?_cons]
    by_cases exec : c.isExec = true
    · rw [if_pos exec, List.map_cons, List.lookup_cons, ih, exec, Bool.true_and]
      by_cases same : pin = c.output
      · simp [same]
      · have no : (pin == c.output) = false := by simpa using same
        have no' : (c.output == pin) = false := by simpa using Ne.symm same
        simp [no, no']
    · rw [if_neg exec, ih]
      simp [exec]

theorem find?_filter_of_kept {α : Type} {p q : α → Bool} {xs : List α}
    (kept : ∀ x ∈ xs, q x = true → p x = true) : (xs.filter p).find? q = xs.find? q := by
  induction xs with
  | nil => rfl
  | cons x rest ih =>
    obtain ⟨here, later⟩ := List.forall_mem_cons.1 kept
    rw [List.filter_cons, List.find?_cons]
    by_cases sought : q x = true
    · simp [sought, here sought]
    · rw [Bool.not_eq_true] at sought
      rw [sought, ← ih later]
      split
      · simp [sought]
      · rfl

namespace Compile
variable {registry : Registry} {serial : Nat} {d : Definition} {doc : Document}

/-- The node of an entry that is of some kind whatever its type. -/
def nodeOr (registry : Registry) (kinds : NodeEntry → NodeKind) (n : NodeEntry) : Node :=
  node n ((registry.lookup n.typeName).getD (kinds n))

/-- The document from which nothing is left out. It need not pass any check. -/
def unpruned (registry : Registry) (kinds : NodeEntry → NodeKind) (serial : Nat)
    (d : Definition) : Document where
  serial := serial
  nodes := d.nodes.map (nodeOr registry kinds)
  connections := parsed d.connections
  start := d.start
  index := .ofConnections (parsed d.connections)

theorem known_eq (registry : Registry) (kinds : NodeEntry → NodeKind) (entries : List NodeEntry) :
    known registry entries =
      (entries.filter fun n => (registry.lookup n.typeName).isSome).map
        (nodeOr registry kinds) := by
  induction entries with
  | nil => rfl
  | cons n rest ih =>
    unfold known at ih ⊢
    rw [List.filterMap_cons, List.filter_cons, ih]
    cases found : registry.lookup n.typeName with
    | none => rfl
    | some kind => simp [nodeOr, found]

theorem dataOnlyCount_le_unpruned (kinds : NodeEntry → NodeKind) (serial : Nat) :
    ((known registry d.nodes).filter fun n => n.kind.isDataOnly).length ≤
      (unpruned registry kinds serial d).dataOnlyCount := by
  rw [known_eq registry kinds]
  exact ((List.filter_sublist.map (nodeOr registry kinds)).filter _).length_le

section
variable (compiled : document registry serial d = .ok doc)
include compiled

theorem lookup_of_reached {n : NodeEntry} (mem : n ∈ d.nodes) (reached : Reached d n.id) :
    ∃ kind, registry.lookup n.typeName = some kind := by
  obtain ⟨_, apart, _, _⟩ := document_eq_ok_iff.1 compiled
  cases found : registry.lookup n.typeName with
  | some kind => exact ⟨kind, rfl⟩
  | none =>
    exact absurd reached (apart n (mem_unknown_iff.2 ⟨mem, found⟩))

theorem node?_of_reached {n : NodeEntry} (mem : n ∈ d.nodes) (reached : Reached d n.id) :
    ∃ kind, registry.lookup n.typeName = some kind ∧ doc.node? n.id = some (node n kind) := by
  obtain ⟨kind, found⟩ := lookup_of_reached compiled mem reached
  refine ⟨kind, found, ?_⟩
  apply (valid_of_document compiled).node?_eq_some_iff.2
  obtain ⟨_, _, _, rfl⟩ := document_eq_ok_iff.1 compiled
  exact ⟨List.mem_filterMap.2 ⟨n, mem, by simp [found]⟩, rfl⟩

theorem mem_keptOf_of_reached {c : Connection} (mem : c ∈ parsed d.connections)
    (source : Reached d c.source) (target : Reached d c.target) : c ∈ keptOf registry d := by
  obtain ⟨_, apart, _, _⟩ := document_eq_ok_iff.1 compiled
  apply mem_keptOf_iff.2
  refine ⟨mem, ?_⟩
  intro n unknown
  constructor
  · intro same
    exact apart n unknown (same ▸ source)
  · intro same
    exact apart n unknown (same ▸ target)

/-- A search among the connections finds the same among those that are kept, as long as it looks
for one with both ends reached. -/
theorem find?_keptOf {sought : Connection → Bool}
    (both : ∀ c ∈ parsed d.connections, sought c = true → Reached d c.source ∧ Reached d c.target) :
    (keptOf registry d).find? sought = (parsed d.connections).find? sought := by
  apply find?_filter_of_kept
  intro c mem found
  obtain ⟨source, target⟩ := both c mem found
  exact (List.mem_filter.1 (mem_keptOf_of_reached compiled mem source target)).2

theorem firstOut?_of_reached {id : String} (reached : Reached d id) (pin : String) :
    firstOut? (keptOf registry d) (id, pin) = firstOut? (parsed d.connections) (id, pin) := by
  apply find?_keptOf compiled
  intro c mem sought
  obtain ⟨exec, out⟩ := Bool.and_eq_true_iff.1 sought
  have source : c.source = id := congrArg Prod.fst (beq_iff_eq.1 out)
  subst source
  exact ⟨reached, reached.exec mem (beq_iff_eq.1 exec)⟩

theorem firstInto?_of_reached {id : String} (reached : Reached d id) (pin : String) :
    firstInto? (keptOf registry d) (id, pin) = firstInto? (parsed d.connections) (id, pin) := by
  apply find?_keptOf compiled
  intro c mem sought
  obtain ⟨data, into⟩ := Bool.and_eq_true_iff.1 sought
  have target : c.target = id := congrArg Prod.fst (beq_iff_eq.1 into)
  subst target
  exact ⟨reached.data mem (beq_iff_eq.1 data), reached⟩

theorem dataSource_of_reached {id : String} (reached : Reached d id) (pin : String) :
    doc.dataSource id pin =
      (firstInto? (parsed d.connections) (id, pin)).map Connection.output := by
  rw [← firstInto?_of_reached compiled reached]
  obtain ⟨_, _, _, rfl⟩ := document_eq_ok_iff.1 compiled
  exact PinIndex.lookup_ofConnections_data _ _

theorem nextExec_of_reached {id : String} (reached : Reached d id) (pin : String) :
    doc.nextExec id pin =
      (firstOut? (parsed d.connections) (id, pin)).map Connection.target := by
  rw [← firstOut?_of_reached compiled reached]
  obtain ⟨_, _, _, rfl⟩ := document_eq_ok_iff.1 compiled
  exact PinIndex.lookup_exec _ _

theorem nextExec_eq_some_iff_of_reached {id : String} (reached : Reached d id)
    {pin target : String} :
    doc.nextExec id pin = some target ↔
      ∃ c ∈ parsed d.connections, c.flow = .exec ∧ c.output = (id, pin) ∧ c.target = target := by
  rw [(valid_of_document compiled).nextExec_eq_some_iff]
  obtain ⟨_, _, _, rfl⟩ := document_eq_ok_iff.1 compiled
  constructor
  · rintro ⟨c, mem, rest⟩
    exact ⟨c, (mem_keptOf_iff.1 mem).1, rest⟩
  · rintro ⟨c, mem, exec, out, into⟩
    have source : Reached d c.source := by rwa [show c.source = id from congrArg Prod.fst out]
    exact ⟨c, mem_keptOf_of_reached compiled mem source (source.exec mem exec), exec, out, into⟩

theorem agree_unpruned (kinds : NodeEntry → NodeKind) (serial' : Nat) :
    Agree (Reached d) doc (unpruned registry kinds serial' d) := by
  refine ⟨?start, ?starts, ?node, ?source, ?next, ?fed, ?leads⟩
  case start =>
    obtain ⟨_, _, _, rfl⟩ := document_eq_ok_iff.1 compiled
    rfl
  case starts =>
    obtain ⟨_, _, _, rfl⟩ := document_eq_ok_iff.1 compiled
    exact Relation.ReflTransGen.refl
  case node =>
    intro id reached
    have typed : ∀ n ∈ d.nodes, (n.id == id) = true →
        (registry.lookup n.typeName).isSome = true := by
      intro n mem same
      obtain ⟨kind, found⟩ := lookup_of_reached compiled mem
        (by rwa [show n.id = id from beq_iff_eq.1 same])
      rw [found, Option.isSome_some]
    obtain ⟨_, _, _, rfl⟩ := document_eq_ok_iff.1 compiled
    simp only [Document.node?, nodeIn?, known_eq registry kinds, unpruned, List.find?_map]
    exact congrArg (Option.map _) (find?_filter_of_kept typed)
  case source =>
    intro id pin reached
    rw [dataSource_of_reached compiled reached]
    exact (PinIndex.lookup_ofConnections_data _ _).symm
  case next =>
    intro id pin reached
    rw [nextExec_of_reached compiled reached]
    exact (PinIndex.lookup_exec _ _).symm
  case fed =>
    intro id pin source sourcePin reached found
    rw [dataSource_of_reached compiled reached] at found
    obtain ⟨c, first, out⟩ := Option.map_eq_some_iff.1 found
    have sought := List.find?_some first
    obtain ⟨data, into⟩ := Bool.and_eq_true_iff.1 sought
    have target : c.target = id := congrArg Prod.fst (beq_iff_eq.1 into)
    subst target
    rw [← show c.source = source from congrArg Prod.fst out]
    exact reached.data (List.mem_of_find?_eq_some first) (beq_iff_eq.1 data)
  case leads =>
    intro id pin target reached found
    obtain ⟨c, mem, exec, out, rfl⟩ := (nextExec_eq_some_iff_of_reached compiled reached).1 found
    have source : Reached d c.source := by rwa [show c.source = id from congrArg Prod.fst out]
    exact source.exec mem exec

theorem sameRuns_unpruned (kinds : NodeEntry → NodeKind) (serial' : Nat) :
    Engine.SameRuns doc (unpruned registry kinds serial' d) := by
  have agree := agree_unpruned compiled kinds serial'
  have ends := Evaluation.ends_of_valid (valid_of_document compiled) (Reached d)
  apply Engine.sameRuns_of_ends agree ends
  apply agree.ends_of_le ends
  obtain ⟨_, _, _, rfl⟩ := document_eq_ok_iff.1 compiled
  exact dataOnlyCount_le_unpruned kinds serial'

end

/-- Compiling keeps every node that is reached, the exec connection out of each of its pins and the
first data connection into it. A run, whenever its flag is lowered, enters and evaluates reached nodes
only, so with all that was left out it would be the same at every moment. -/
theorem document_prunes_unmet (compiled : document registry serial d = .ok doc) :
    connections d.connections = .ok (parsed d.connections) ∧
      (∀ n ∈ d.nodes, Reached d n.id →
        ∃ kind, registry.lookup n.typeName = some kind ∧ doc.node? n.id = some (node n kind)) ∧
      (∀ id pin, Reached d id →
        (∀ target, doc.nextExec id pin = some target ↔
          ∃ c ∈ parsed d.connections, c.flow = .exec ∧ c.output = (id, pin) ∧ c.target = target) ∧
        doc.dataSource id pin =
          (firstInto? (parsed d.connections) (id, pin)).map Connection.output) ∧
      (∀ {σ : Type} (host : Engine.Host σ) (lowers : Nat → Bool) (t : Timing)
        (level : Option Log.Level) (running : Bool) (world : σ) (n : Nat) (r : Engine.Run σ),
        r = (Engine.Run.begin doc t level running world).interrupted host lowers n →
          (∀ id, Event.notice (.entered id) ∈ r.events.toList → Reached d id) ∧
          ∀ o id pin, Engine.Note.read o id pin ∈ r.worker.advance.2 →
            Reached d id ∧ (∀ a, Evaluation.Evaluates doc o id pin a → Reached d a.1) ∧
              ∀ v ∈ Evaluation.inputVisits doc o id pin, Reached d v.id) ∧
      ∀ kinds serial', Engine.SameRuns doc (unpruned registry kinds serial' d) := by
  refine ⟨?flows, ?nodes, ?pins, ?runs, sameRuns_unpruned compiled⟩
  case flows =>
    obtain ⟨flowing, _⟩ := document_eq_ok_iff.1 compiled
    exact connections_eq_ok_iff.2 ⟨flowing, rfl⟩
  case nodes =>
    intro n mem reached
    exact node?_of_reached compiled mem reached
  case pins =>
    intro id pin reached
    exact ⟨fun target => nextExec_eq_some_iff_of_reached compiled reached,
      dataSource_of_reached compiled reached pin⟩
  case runs =>
    rintro σ host lowers t level running world n r rfl
    have agree := agree_unpruned compiled (fun _ => .start) serial
    refine ⟨fun id => Engine.Run.names_of_entered agree host lowers t level running world n, ?_⟩
    intro o id pin read
    have here := Engine.Run.names_of_read agree host lowers t level running world n read
    have evaluated : ∀ a, Evaluation.Evaluates doc o id pin a → Reached d a.1 :=
      fun a => agree.names_of_evaluates here
    refine ⟨here, evaluated, ?_⟩
    intro v mem
    exact evaluated _ (Evaluation.evaluates_of_mem_inputVisits mem)

/-- A wait for the time that a number says, and a plugin that reads the number and leads into the
wait. -/
def cluttered : Definition where
  start := "s"
  nodes := [⟨"s", "start", []⟩, ⟨"x", "plugin", []⟩, ⟨"w", "delay", []⟩,
    ⟨"n", "number_literal", [("value", .text "3")]⟩]
  connections := [⟨"x", "exec", "w", "exec", "exec"⟩, ⟨"n", "Value", "x", "Amount", "data"⟩,
    ⟨"s", "exec", "w", "exec", "exec"⟩, ⟨"n", "Value", "w", "Duration", "data"⟩]

theorem cluttered_prunes_plugin :
    ∃ doc, document .standard 0 cluttered = .ok doc ∧ doc.nodes.length = 3 ∧
      doc.connections.length = 2 ∧ Reached cluttered "w" ∧
      doc.nextExec "s" Pin.exec = some "w" ∧ doc.dataSource "w" "Duration" = some ("n", "Value") ∧
      ∀ kinds serial', Engine.SameRuns doc (unpruned .standard kinds serial' cluttered) := by
  have waits : Connection.mk "s" "exec" "w" "exec" .exec ∈ parsed cluttered.connections := by
    decide +kernel
  have first : Reached cluttered "s" := Relation.ReflTransGen.refl
  have reached : Reached cluttered "w" := Reached.exec first waits rfl
  obtain ⟨doc, compiled⟩ : ∃ doc, document .standard 0 cluttered = .ok doc := by
    refine ⟨⟨0, known .standard cluttered.nodes, keptOf .standard cluttered, "s",
      .ofConnections (keptOf .standard cluttered)⟩, ?_⟩
    decide +kernel
  obtain ⟨_, _, pins, _, same⟩ := document_prunes_unmet compiled
  refine ⟨doc, compiled, ?nodes, ?connections, reached, ?out, ?into, same⟩
  case nodes =>
    obtain ⟨_, _, _, rfl⟩ := document_eq_ok_iff.1 compiled
    decide +kernel
  case connections =>
    obtain ⟨_, _, _, rfl⟩ := document_eq_ok_iff.1 compiled
    decide +kernel
  case out => exact ((pins "s" Pin.exec first).1 "w").2 ⟨_, waits, rfl, rfl, rfl⟩
  case into =>
    rw [(pins "w" "Duration" reached).2]
    decide +kernel

end Compile
end MacroGraph
