import MacroGraph.Proofs.Evaluation

namespace MacroGraph
namespace Evaluation
variable {d e : Document} {o p : Outputs}

/-- The stored fields that the value of a node depends on, by its kind. -/
def fieldsRead : NodeKind → List String
  | .numberLiteral | .stringLiteral => ["value"]
  | .math => ["A", "B", "Operator"]
  | .compare => ["A", "B", "Operator", "Type"]
  | _ => []

/-- What evaluation reads of a node: its kind and those fields. -/
def reading (n : Node) : NodeKind × List (Option Value) :=
  (n.kind, (fieldsRead n.kind).map n.value?)

theorem eq_of_reading {n m : Node} (same : reading n = reading m) : n.kind = m.kind ∧
    ∀ field ∈ fieldsRead n.kind, (∀ fallback, n.valueOr field fallback = m.valueOr field fallback) ∧
      ∀ fallback, n.option field fallback = m.option field fallback := by
  obtain ⟨kind, values⟩ := Prod.mk.inj same
  rw [← kind, List.map_inj_left] at values
  refine ⟨kind, ?_⟩
  intro field read
  have stored : ∀ fallback, n.valueOr field fallback = m.valueOr field fallback := by
    intro fallback
    rw [Node.valueOr, Node.valueOr, values field read]
  refine ⟨stored, ?_⟩
  intro fallback
  rw [Node.option, Node.option, stored]

/-- The least set of outputs that holds the given one and, with each unpublished output of a
calculation or a comparison, the sources of both its inputs. -/
def Upstream (d : Document) (o : Outputs) : String × String → String × String → Prop :=
  Relation.ReflTransGen (Asks d o)

/-- Two documents, with what is published in each, say the same of an output. Where it is not
published they read the same of its node, and feed the inputs of a calculation or a comparison
from the same sources. -/
structure AgreeAt (d e : Document) (o p : Outputs) (a : String × String) : Prop where
  published : o.value? a.1 a.2 = p.value? a.1 a.2
  node : o.value? a.1 a.2 = none → (d.node? a.1).map reading = (e.node? a.1).map reading
  sources : o.value? a.1 a.2 = none →
    ∀ n ∈ d.node? a.1, ∀ pin ∈ dataInputs n, d.dataSource n.id pin = e.dataSource n.id pin

theorem produce_congr {f g : String → String → Option Value} {n m : Node} (id : n.id = m.id)
    (same : reading n = reading m)
    (sources : ∀ pin ∈ dataInputs n, d.dataSource n.id pin = e.dataSource n.id pin)
    (below : ∀ pin ∈ dataInputs n, ∀ b, d.dataSource n.id pin = some b → f b.1 b.2 = g b.1 b.2) :
    produce d f n = produce e g m := by
  obtain ⟨kind, fields⟩ := eq_of_reading same
  have inputs : ∀ pin ∈ dataInputs n, ∀ kind fallback,
      inputWith d f n.id pin kind fallback = inputWith e g m.id pin kind fallback := by
    intro pin mem kind fallback
    rw [← id]
    exact inputWith_congr (sources pin mem) (below pin mem) kind fallback
  unfold produce
  rw [← kind]
  cases here : n.kind with
  | numberLiteral | stringLiteral =>
    rw [here] at fields
    simp only [(fields "value" (by decide)).1]
  | math =>
    simp only [dataInputs, here, List.forall_mem_cons] at inputs
    rw [here] at fields
    simp only [inputs.1, inputs.2.1, (fields "A" (by decide)).1, (fields "B" (by decide)).1,
      (fields "Operator" (by decide)).2]
  | compare =>
    simp only [dataInputs, here, List.forall_mem_cons] at inputs
    rw [here] at fields
    have compared : comparedKind n = comparedKind m := by
      rw [comparedKind, comparedKind, (fields "Type" (by decide)).2]
    simp only [inputs.1, inputs.2.1, compared, (fields "A" (by decide)).1,
      (fields "B" (by decide)).1, (fields "Operator" (by decide)).2]
  | _ => rfl

/-- Where all that is upstream agrees, an output has the same value at every depth. -/
theorem outputAt_congr {root a : String × String} (upstream : Upstream d o root a)
    (agree : ∀ a, Upstream d o root a → AgreeAt d e o p a) (depth : Nat) :
    outputAt d o depth a.1 a.2 = outputAt e p depth a.1 a.2 := by
  induction depth generalizing a with
  | zero => rfl
  | succ depth ih =>
    have here := agree a upstream
    rw [outputAt, outputAt, ← here.published]
    cases unpublished : o.value? a.1 a.2 with
    | some v => rfl
    | none =>
      have same := here.node unpublished
      cases found : d.node? a.1 with
      | none =>
        rw [found, Option.map_none, eq_comm, Option.map_eq_none_iff] at same
        rw [same]
      | some n =>
        rw [found, Option.map_some, eq_comm, Option.map_eq_some_iff] at same
        obtain ⟨m, found', same⟩ := same
        rw [found']
        apply produce_congr _ same.symm (here.sources unpublished n found)
        · intro pin mem b fed
          exact ih (upstream.tail ⟨unpublished, n, found, pin, mem, fed⟩)
        · rw [Document.id_of_node? found, Document.id_of_node? found']

theorem output_congr (valid : d.Valid) (valid' : e.Valid) {a : String × String}
    (agree : ∀ b, Upstream d o a b → AgreeAt d e o p b) :
    output d o a.1 a.2 = output e p a.1 a.2 := by
  have one : outputAt d o (max (depthOf d) (depthOf e)) a.1 a.2 = some (output d o a.1 a.2) :=
    (ends_of_valid valid fun _ => True).outputAt_eq o (Nat.le_max_left _ _) trivial a.2
  have other : outputAt e p (max (depthOf d) (depthOf e)) a.1 a.2 = some (output e p a.1 a.2) :=
    (ends_of_valid valid' fun _ => True).outputAt_eq p (Nat.le_max_right _ _) trivial a.2
  rw [outputAt_congr .refl agree, other] at one
  exact (Option.some.inj one).symm

/-- A document changed away from some ids. Nodes are edited and added, and connections changed in
any way that leaves the first inputs of calculations and comparisons of these ids alone, and what
evaluation reads of their nodes. -/
structure ChangedAwayFrom (ids : String → Prop) (d e : Document) : Prop where
  nodes : ∃ edit added, e.nodes = d.nodes.map edit ++ added ∧ (∀ n, (edit n).id = n.id) ∧
    (∀ n ∈ d.nodes, ids n.id → reading (edit n) = reading n) ∧ ∀ n ∈ added, ¬ ids n.id
  fed : ∀ id, ids id → ∀ pin ∈ ["A", "B"],
    (e.connections.filter fun c => c.isData && c.input == (id, pin)) =
      d.connections.filter fun c => c.isData && c.input == (id, pin)

theorem mem_ab_of_mem_dataInputs {n : Node} {pin : String} (mem : pin ∈ dataInputs n) :
    pin ∈ ["A", "B"] := by
  unfold dataInputs at mem
  split at mem <;> first | exact mem | cases mem

theorem dataSource_eq_head? (valid : d.Valid) (id pin : String) : d.dataSource id pin =
    (d.connections.filter fun c => c.isData && c.input == (id, pin)).head?.map
      Connection.output := by
  rw [Document.dataSource, (Document.valid_iff.1 valid).2, PinIndex.lookup_ofConnections_data,
    firstInto?, List.head?_filter]

theorem ChangedAwayFrom.agreeAt {ids : String → Prop} (changed : ChangedAwayFrom ids d e)
    (valid : d.Valid) (valid' : e.Valid) {a : String × String} (here : ids a.1) :
    AgreeAt d e o o a := by
  refine ⟨rfl, fun _ => ?node, fun _ n found pin mem => ?sources⟩
  case node =>
    obtain ⟨edit, added, nodes, keeps, kept, new⟩ := changed.nodes
    have none_added : nodeIn? added a.1 = none :=
      nodeIn?_eq_none_iff.2 fun n mem same => new n mem (same ▸ here)
    have edited : e.node? a.1 = (d.node? a.1).map edit := by
      unfold nodeIn? at none_added
      simp only [Document.node?, nodeIn?, nodes, List.find?_append, none_added, Option.or_none,
        List.find?_map, Function.comp_def, keeps]
    rw [edited, Option.map_map]
    cases found : d.node? a.1 with
    | none => rfl
    | some n =>
      obtain ⟨mem, same⟩ := mem_of_nodeIn? found
      exact congrArg some (kept n mem (same ▸ here)).symm
  case sources =>
    have same := Document.id_of_node? found
    rw [dataSource_eq_head? valid, dataSource_eq_head? valid', same,
      changed.fed a.1 here pin (mem_ab_of_mem_dataInputs mem)]

/-- The value of an output is the same in two documents, with whatever is published in each, as
long as they agree on all outputs upstream of it. So it is the same after other nodes publish or
take back values, and in documents changed away from the nodes upstream. -/
theorem evaluation_is_local (valid : d.Valid) (o : Outputs) (id pin : String) :
    (∀ {e : Document}, e.Valid → ∀ p : Outputs,
      (∀ a, Upstream d o (id, pin) a → AgreeAt d e o p a) →
        output d o id pin = output e p id pin) ∧
    (∀ other, (∀ a, Upstream d o (id, pin) a → a.1 ≠ other) →
      (∀ otherPin v, output d (o.publish other otherPin v) id pin = output d o id pin) ∧
        output d (o.withdraw other) id pin = output d o id pin) ∧
    ∀ {e : Document}, e.Valid →
      ChangedAwayFrom (fun other => ∃ a, Upstream d o (id, pin) a ∧ a.1 = other) d e →
        output e o id pin = output d o id pin := by
  refine ⟨?agreeing, ?publishing, ?changing⟩
  case agreeing =>
    intro e valid' p agree
    exact output_congr (a := (id, pin)) valid valid' agree
  case publishing =>
    intro other apart
    constructor
    · intro otherPin v
      refine (output_congr (a := (id, pin)) valid valid fun a upstream => ?_).symm
      refine ⟨?_, fun _ => rfl, fun _ _ _ _ _ => rfl⟩
      rw [Outputs.value?_publish, if_neg (apart a upstream)]
    · refine (output_congr (a := (id, pin)) valid valid fun a upstream => ?_).symm
      refine ⟨?_, fun _ => rfl, fun _ _ _ _ _ => rfl⟩
      rw [Outputs.value?_withdraw, if_neg (apart a upstream)]
  case changing =>
    intro e valid' changed
    exact (output_congr (a := (id, pin)) valid valid' fun a upstream =>
      changed.agreeAt valid valid' ⟨a, upstream, rfl⟩).symm

def summing : Document where
  serial := 0
  nodes := [⟨"s", .start, []⟩, ⟨"l", .loop, []⟩, ⟨"n", .numberLiteral, [("value", .text "2")]⟩,
    ⟨"m", .math, []⟩]
  connections := [⟨"s", Pin.exec, "l", Pin.exec, .exec⟩, ⟨"n", "Value", "m", "A", .data⟩,
    ⟨"l", Pin.index, "m", "B", .data⟩]
  start := "s"
  index := {
    exec := [(("s", Pin.exec), "l")]
    data := [(("m", "A"), ("n", "Value")), (("m", "B"), ("l", Pin.index))] }

/-- The same sum where the loop is never entered and has another number of iterations. There is
one more number, and it is connected second to an input of the sum. -/
def summingBeside : Document where
  serial := 1
  nodes := [⟨"s", .start, []⟩, ⟨"l", .loop, [("Iterations", .number (.ofNat 7))]⟩,
    ⟨"n", .numberLiteral, [("value", .text "2"), ("Type", .text "text")]⟩, ⟨"m", .math, []⟩,
    ⟨"k", .numberLiteral, [("value", .text "9")]⟩]
  connections := [⟨"k", "Value", "l", "Iterations", .data⟩, ⟨"l", Pin.index, "m", "B", .data⟩,
    ⟨"n", "Value", "m", "A", .data⟩, ⟨"k", "Value", "m", "A", .data⟩]
  start := "s"
  index := {
    exec := []
    data := [(("l", "Iterations"), ("k", "Value")), (("m", "B"), ("l", Pin.index)),
      (("m", "A"), ("n", "Value"))] }

theorem upstream_summing {a : String × String}
    (upstream : Upstream summing [("l", [(Pin.index, .number (.ofNat 3))])] ("m", "Result") a) :
    a ∈ [("m", "Result"), ("n", "Value"), ("l", Pin.index)] := by
  have closed : ∀ a ∈ [("m", "Result"), ("n", "Value"), ("l", Pin.index)],
      Outputs.value? [("l", [(Pin.index, .number (.ofNat 3))])] a.1 a.2 = none →
        ∀ n ∈ summing.node? a.1, ∀ pin ∈ dataInputs n, ∀ b ∈ summing.dataSource n.id pin,
          b ∈ [("m", "Result"), ("n", "Value"), ("l", Pin.index)] := by decide
  induction upstream with
  | refl => decide
  | tail _ asks ih =>
    obtain ⟨unpublished, n, found, pin, mem, fed⟩ := asks
    exact closed _ ih unpublished n found pin mem _ fed

/-- In its iteration 3 the sum is 5 in both, also when the other number publishes a value. -/
theorem summing_evaluates_beside :
    output summing [("l", [(Pin.index, .number (.ofNat 3))])] "m" "Result" =
      .number (.ofNat 5) ∧
    output summingBeside [("k", [("Value", .text "x")]), ("l", [(Pin.index, .number (.ofNat 3))])]
      "m" "Result" = .number (.ofNat 5) := by
  have valid : summing.Valid := by
    unfold Document.Valid
    decide +kernel
  have valid' : summingBeside.Valid := by
    unfold Document.Valid
    decide +kernel
  have five : output summing [("l", [(Pin.index, .number (.ofNat 3))])] "m" "Result" =
      .number (.ofNat 5) := by decide +kernel
  have agree : ∀ a ∈ [("m", "Result"), ("n", "Value"), ("l", Pin.index)],
      AgreeAt summing summingBeside [("l", [(Pin.index, .number (.ofNat 3))])]
        [("k", [("Value", .text "x")]), ("l", [(Pin.index, .number (.ofNat 3))])] a := by
    intro a mem
    refine ⟨?_, ?_, ?_⟩
    all_goals
      revert a
      decide
  obtain ⟨same, _, _⟩ := evaluation_is_local valid [("l", [(Pin.index, .number (.ofNat 3))])]
    "m" "Result"
  refine ⟨five, ?_⟩
  rw [← same valid' _ fun a upstream => agree a (upstream_summing upstream), five]

end Evaluation
end MacroGraph
