import MacroGraph.Proofs.Compile
import MacroGraph.Proofs.Evaluation

namespace MacroGraph

/-- Some data connection into the first node comes from the second. -/
def Feeds (connections : List Connection) (reader source : String) : Prop :=
  ∃ c ∈ connections, c.flow = .data ∧ c.target = reader ∧ c.source = source

namespace Evaluation

def tangled : Document where
  serial := 0
  nodes := [⟨"s", .start, []⟩, ⟨"l", .loop, []⟩, ⟨"n", .numberLiteral, [("value", .text "2")]⟩,
    ⟨"m", .math, []⟩]
  connections := [⟨"s", Pin.exec, "l", Pin.exec, .exec⟩, ⟨"n", "Value", "m", "A", .data⟩,
    ⟨"m", "Result", "m", "A", .data⟩, ⟨"l", Pin.index, "m", "B", .data⟩,
    ⟨"m", "Result", "l", "Iterations", .data⟩]
  start := "s"
  index := {
    exec := [(("s", Pin.exec), "l")]
    data := [(("m", "A"), ("n", "Value")), (("m", "B"), ("l", Pin.index)),
      (("l", "Iterations"), ("m", "Result"))] }

theorem build_tangled : Document.build 0 tangled.nodes tangled.connections "s" = .ok tangled := by
  decide +kernel

theorem cycles_tangled :
    (∃ id, ¬ ProducesData tangled.nodes id ∧
      Relation.TransGen (Feeds tangled.connections) id id) ∧
    ∃ id, ProducesData tangled.nodes id ∧ Feeds tangled.connections id id := by
  refine ⟨⟨"l", ?runs, ?around⟩, "m", ⟨⟨"m", .math, []⟩, by decide, rfl, rfl⟩, ?itself⟩
  case runs =>
    rintro ⟨n, mem, same, data⟩
    have kinds : ∀ n ∈ tangled.nodes, n.id = "l" → n.kind.isDataOnly = false := by decide
    rw [kinds n mem same] at data
    cases data
  case around =>
    have first : Feeds tangled.connections "l" "m" :=
      ⟨⟨"m", "Result", "l", "Iterations", .data⟩, by decide, rfl, rfl, rfl⟩
    have second : Feeds tangled.connections "m" "l" :=
      ⟨⟨"l", Pin.index, "m", "B", .data⟩, by decide, rfl, rfl, rfl⟩
    exact .tail (.single first) second
  case itself => exact ⟨⟨"m", "Result", "m", "A", .data⟩, by decide, rfl, rfl, rfl⟩

/-- In a document all outputs and inputs have values, whatever is published and whether or not
they exist, and more depth changes none of them. The depth that an output takes is the length of
the longest chain of evaluations nested in it; along a chain no data-only node occurs twice, so it
has at most one evaluation more than there are such nodes. Documents may hold cycles of data
connections all the same: through a node that runs, or over a connection that comes second. -/
theorem evaluation_ends :
    (∀ {d : Document}, d.Obtained → ∀ o : Outputs,
      (∀ id pin depth, depthOf d ≤ depth →
        outputAt d o depth id pin = some (output d o id pin)) ∧
      (∀ id pin kind fallback depth, depthOf d ≤ depth →
        inputWith d (outputAt d o depth) id pin kind fallback =
          some (resolve d o id pin kind fallback)) ∧
      (∀ a depth, (outputAt d o depth a.1 a.2).isSome = true ↔
        ∀ nested, List.IsChain (Asks d o) (a :: nested) → (a :: nested).length ≤ depth) ∧
      ∀ calls, List.IsChain (Asks d o) calls →
        ((calls.map Prod.fst).filter (Document.isDataOnly d.nodes)).Nodup ∧
          calls.length ≤ d.dataOnlyCount + 1) ∧
    ∃ d : Document, d.Obtained ∧
      (∃ id, ¬ ProducesData d.nodes id ∧ Relation.TransGen (Feeds d.connections) id id) ∧
      ∃ id, ProducesData d.nodes id ∧ Feeds d.connections id id := by
  refine ⟨?_, tangled, .built build_tangled, cycles_tangled⟩
  intro d obtained o
  have valid := obtained.valid
  have value : ∀ id pin depth, depthOf d ≤ depth →
      outputAt d o depth id pin = some (output d o id pin) := by
    intro id pin depth enough
    exact (ends_of_valid valid fun _ => True).outputAt_eq o enough trivial pin
  refine ⟨value, ?inputs, fun a depth => isSome_outputAt_iff, ?chains⟩
  case inputs =>
    intro id pin kind fallback depth enough
    have same : outputAt d o depth = fun i p => some (output d o i p) := by
      funext i p
      exact value i p depth enough
    have found : (inputWith d (fun i p => some (output d o i p)) id pin kind fallback).isSome =
        true := by
      apply isSome_inputWith_iff.2
      intro i p _
      rfl
    rw [same, resolve]
    obtain ⟨v, here⟩ := Option.isSome_iff_exists.1 found
    rw [here, Option.getD_some]
  case chains =>
    intro calls chain
    exact ⟨nodup_of_isChain valid chain, length_le_of_isChain valid chain⟩

/-- While the loop is in its iteration 3, the calculation that is fed by it and by itself is 5. -/
theorem tangled_result :
    tangled.Obtained ∧ depthOf tangled = 3 ∧
      ∀ depth, 3 ≤ depth →
        outputAt tangled [("l", [(Pin.index, .number (.ofNat 3))])] depth "m" "Result" =
          some (.number (.ofNat 5)) := by
  have obtained : tangled.Obtained := .built build_tangled
  have five : output tangled [("l", [(Pin.index, .number (.ofNat 3))])] "m" "Result" =
      .number (.ofNat 5) := by decide +kernel
  refine ⟨obtained, rfl, ?_⟩
  intro depth enough
  obtain ⟨outputs, _⟩ := evaluation_ends.1 obtained [("l", [(Pin.index, .number (.ofNat 3))])]
  rw [outputs "m" "Result" depth enough, five]

end Evaluation
end MacroGraph
