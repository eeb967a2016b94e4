import Mathlib.Data.List.Chain
import Mathlib.Data.List.Perm.Subperm
import MacroGraph.Evaluation
import MacroGraph.Proofs.Document.WellFormed

/-!
Evaluation needs no more depth than it has. An output that is evaluated asks for the outputs that
feed its node; in a document no data-only node asks for itself, so every output has a value, and
evaluating deeper gives the same.
-/
namespace MacroGraph
namespace Evaluation
variable {d : Document} {o : Outputs} {f g : String → String → Option Value}

theorem inputWith_congr {e : Document} {id pin : String}
    (source : d.dataSource id pin = e.dataSource id pin)
    (below : ∀ b, d.dataSource id pin = some b → f b.1 b.2 = g b.1 b.2) (kind : ValueKind)
    (fallback : Value) :
    inputWith d f id pin kind fallback = inputWith e g id pin kind fallback := by
  unfold inputWith
  rw [← source]
  cases fed : d.dataSource id pin with
  | none => rfl
  | some b => simp only [below b fed]

theorem inputWith_mono (le : ∀ id pin v, f id pin = some v → g id pin = some v)
    {id pin : String} {kind : ValueKind} {fallback v : Value}
    (h : inputWith d f id pin kind fallback = some v) :
    inputWith d g id pin kind fallback = some v := by
  unfold inputWith at h ⊢
  split
  · next missing => simpa [missing] using h
  · next source sourcePin found =>
    simp only [found, Option.map_eq_some_iff] at h ⊢
    obtain ⟨w, fed, rfl⟩ := h
    exact ⟨w, le _ _ _ fed, rfl⟩

theorem produce_mono (le : ∀ id pin v, f id pin = some v → g id pin = some v) {n : Node}
    {v : Value} (h : produce d f n = some v) : produce d g n = some v := by
  unfold produce at h ⊢
  cases kind : n.kind with
  | math | compare =>
    simp only [kind, Option.bind_eq_bind, Option.bind_eq_some_iff] at h ⊢
    obtain ⟨a, first, b, second, rest⟩ := h
    exact ⟨a, inputWith_mono le first, b, inputWith_mono le second, rest⟩
  | _ => simpa only [kind] using h

theorem outputAt_succ {depth : Nat} {id pin : String} {v : Value}
    (h : outputAt d o depth id pin = some v) : outputAt d o (depth + 1) id pin = some v := by
  induction depth generalizing id pin v with
  | zero => simp [outputAt] at h
  | succ depth ih =>
    rw [outputAt] at h ⊢
    split
    · next published => simpa [published] using h
    · next none_published =>
      simp only [none_published] at h
      split
      · next missing => simpa [missing] using h
      · next n found =>
        simp only [found] at h
        exact produce_mono (fun _ _ _ => ih) h

theorem outputAt_of_le {k j : Nat} (le : k ≤ j) {id pin : String} {v : Value}
    (h : outputAt d o k id pin = some v) : outputAt d o j id pin = some v := by
  induction le with
  | refl => exact h
  | step _ ih => exact outputAt_succ ih

theorem isSome_inputWith_iff {id pin : String} {kind : ValueKind} {fallback : Value} :
    (inputWith d f id pin kind fallback).isSome = true ↔ ∀ source sourcePin,
      d.dataSource id pin = some (source, sourcePin) → (f source sourcePin).isSome = true := by
  unfold inputWith
  split
  · next missing => simp [missing]
  · next source sourcePin found => simp [found]

theorem isSome_produce_iff {n : Node} :
    (produce d f n).isSome = true ↔ ∀ pin ∈ dataInputs n, ∀ source sourcePin,
      d.dataSource n.id pin = some (source, sourcePin) → (f source sourcePin).isSome = true := by
  have both : ∀ {a b : Option Value} (k : Value → Value → Value),
      (a.bind fun x => b.bind fun y => some (k x y)).isSome = true ↔
        a.isSome = true ∧ b.isSome = true := by
    rintro (_ | _) (_ | _) k <;> simp
  unfold produce dataInputs
  cases kind : n.kind with
  | math | compare =>
    simp only [List.forall_mem_cons, List.not_mem_nil, false_implies, implies_true, and_true]
    rw [← isSome_inputWith_iff, ← isSome_inputWith_iff]
    exact both _
  | _ => simp

theorem length_le_dataOnlyCount {path : List String} (distinct : path.Nodup)
    (data : ∀ id ∈ path, ProducesData d.nodes id) : path.length ≤ d.dataOnlyCount := by
  have sub : path ⊆ (d.nodes.filter fun n => n.kind.isDataOnly).map Node.id := by
    intro id mem
    obtain ⟨n, node, same, only⟩ := data id mem
    exact List.mem_map.2 ⟨n, List.mem_filter.2 ⟨node, only⟩, same⟩
  simpa [Document.dataOnlyCount] using (distinct.subperm sub).length_le

theorem reads_of_dataSource (valid : d.Valid) {id pin source sourcePin : String}
    (reader : ProducesData d.nodes id) (fed : ProducesData d.nodes source)
    (found : d.dataSource id pin = some (source, sourcePin)) :
    Reads d.nodes d.connections id source := by
  rw [Document.dataSource, (Document.valid_iff.1 valid).2,
    PinIndex.lookup_ofConnections_data] at found
  obtain ⟨c, first, out⟩ := Option.map_eq_some_iff.1 found
  exact ⟨⟨pin, c, first, congrArg Prod.fst out⟩, reader, fed⟩

/-- Evaluating the first output evaluates the second one for an input of its node. -/
def Asks (d : Document) (o : Outputs) (a b : String × String) : Prop :=
  o.value? a.1 a.2 = none ∧ ∃ n, d.node? a.1 = some n ∧
    ∃ pin ∈ dataInputs n, d.dataSource n.id pin = some b

theorem Asks.producesData {a b : String × String} (asks : Asks d o a b) :
    ProducesData d.nodes a.1 := by
  obtain ⟨_, n, found, pin, mem, _⟩ := asks
  obtain ⟨node, same⟩ := mem_of_nodeIn? found
  refine ⟨n, node, same, ?_⟩
  unfold dataInputs at mem
  cases kind : n.kind <;> simp_all [NodeKind.isDataOnly]

theorem Asks.reads (valid : d.Valid) {a b : String × String} (asks : Asks d o a b)
    (fed : ProducesData d.nodes b.1) : Reads d.nodes d.connections a.1 b.1 := by
  have reader := asks.producesData
  obtain ⟨_, n, found, pin, _, source⟩ := asks
  rw [Document.id_of_node? found] at source
  exact reads_of_dataSource valid reader fed source

theorem isSome_outputAt_succ_iff {depth : Nat} {a : String × String} :
    (outputAt d o (depth + 1) a.1 a.2).isSome = true ↔
      ∀ b, Asks d o a b → (outputAt d o depth b.1 b.2).isSome = true := by
  rw [outputAt]
  split
  · next published => simp [Asks, published]
  · next unpublished =>
    split
    · next missing => simp [Asks, missing]
    · next n found =>
      rw [isSome_produce_iff]
      constructor
      · rintro values b ⟨_, m, found', pin, mem, source⟩
        rw [found] at found'
        cases found'
        exact values pin mem b.1 b.2 source
      · intro values pin mem source sourcePin fed
        exact values (source, sourcePin) ⟨unpublished, n, found, pin, mem, fed⟩

/-- The depth is enough exactly when no chain of nested evaluations is longer. -/
theorem isSome_outputAt_iff {depth : Nat} {a : String × String} :
    (outputAt d o depth a.1 a.2).isSome = true ↔
      ∀ nested, List.IsChain (Asks d o) (a :: nested) → (a :: nested).length ≤ depth := by
  induction depth generalizing a with
  | zero =>
    simp only [outputAt, Option.isSome_none, Bool.false_eq_true, false_iff, not_forall]
    exact ⟨[], List.isChain_singleton a, by simp⟩
  | succ depth ih =>
    simp only [isSome_outputAt_succ_iff, ih]
    constructor
    · intro below nested chain
      cases nested with
      | nil => simp
      | cons b rest =>
        obtain ⟨asks, chain⟩ := List.isChain_cons_cons.1 chain
        exact Nat.succ_le_succ (below b asks rest chain)
    · intro bound b asks rest chain
      exact Nat.le_of_succ_le_succ (bound (b :: rest) (List.isChain_cons_cons.2 ⟨asks, chain⟩))

theorem transGen_of_isChain (valid : d.Valid) {a : String × String}
    {nested : List (String × String)} (chain : List.IsChain (Asks d o) (a :: nested))
    {b : String × String} (mem : b ∈ nested) (data : ProducesData d.nodes b.1) :
    Relation.TransGen (Reads d.nodes d.connections) a.1 b.1 := by
  induction nested generalizing a with
  | nil => cases mem
  | cons first rest ih =>
    obtain ⟨asks, chain⟩ := List.isChain_cons_cons.1 chain
    cases mem with
    | head => exact .single (asks.reads valid data)
    | tail _ mem =>
      have further := ih chain mem
      obtain ⟨_, reads, _⟩ := Relation.TransGen.head'_iff.1 further
      exact .head (asks.reads valid reads.2.1) further

/-- Along a chain no data-only node occurs twice. -/
theorem nodup_of_isChain (valid : d.Valid) {calls : List (String × String)}
    (chain : List.IsChain (Asks d o) calls) :
    ((calls.map Prod.fst).filter (Document.isDataOnly d.nodes)).Nodup := by
  obtain ⟨w, _⟩ := Document.valid_iff.1 valid
  induction calls with
  | nil => exact List.nodup_nil
  | cons a nested ih =>
    rw [List.map_cons, List.filter_cons]
    split
    · refine List.nodup_cons.2 ⟨?_, ih chain.of_cons⟩
      intro again
      obtain ⟨later, data⟩ := List.mem_filter.1 again
      obtain ⟨b, mem, same⟩ := List.mem_map.1 later
      have cycle := transGen_of_isChain valid chain mem
        (same ▸ (Document.isDataOnly_iff w.distinct).1 data)
      rw [same] at cycle
      exact w.acyclic a.1 cycle
    · exact ih chain.of_cons

theorem producesData_of_mem_dropLast {calls : List (String × String)}
    (chain : List.IsChain (Asks d o) calls) : ∀ a ∈ calls.dropLast, ProducesData d.nodes a.1 := by
  induction calls with
  | nil => simp
  | cons a nested ih =>
    cases nested with
    | nil => simp
    | cons b rest =>
      obtain ⟨asks, chain⟩ := List.isChain_cons_cons.1 chain
      rw [List.dropLast_cons_cons, List.forall_mem_cons]
      exact ⟨asks.producesData, ih chain⟩

theorem length_le_of_isChain (valid : d.Valid) {calls : List (String × String)}
    (chain : List.IsChain (Asks d o) calls) : calls.length ≤ depthOf d := by
  obtain ⟨w, _⟩ := Document.valid_iff.1 valid
  have data : ∀ id ∈ calls.dropLast.map Prod.fst, ProducesData d.nodes id := by
    intro id listed
    obtain ⟨a, mem, rfl⟩ := List.mem_map.1 listed
    exact producesData_of_mem_dropLast chain a mem
  have all : (calls.dropLast.map Prod.fst).filter (Document.isDataOnly d.nodes) =
      calls.dropLast.map Prod.fst := by
    apply List.filter_eq_self.2
    intro id mem
    exact (Document.isDataOnly_iff w.distinct).2 (data id mem)
  have distinct := nodup_of_isChain valid chain.dropLast
  rw [all] at distinct
  have few := length_le_dataOnlyCount distinct data
  rw [List.length_map, List.length_dropLast] at few
  simp only [depthOf]
  omega

/-- Evaluation at these names ends within the depth of the document. -/
def Ends (names : String → Prop) (d : Document) : Prop :=
  ∀ o id pin, names id → (outputAt d o (depthOf d) id pin).isSome = true

theorem ends_of_valid (valid : d.Valid) (names : String → Prop) : Ends names d := by
  intro o id pin _
  apply (isSome_outputAt_iff (a := (id, pin))).2
  intro nested chain
  exact length_le_of_isChain valid chain

/-- There every output has a value. -/
theorem Ends.outputAt_eq {names : String → Prop} (ends : Ends names d) (o : Outputs) {depth : Nat}
    (enough : depthOf d ≤ depth) {id : String} (here : names id) (pin : String) :
    outputAt d o depth id pin = some (output d o id pin) := by
  obtain ⟨v, found⟩ := Option.isSome_iff_exists.1 (ends o id pin here)
  rw [output, found, outputAt_of_le enough found, Option.getD_some]

theorem visitsAt_succ {depth : Nat} {id pin : String}
    (value : (outputAt d o depth id pin).isSome = true) :
    visitsAt d o (depth + 1) id pin = visitsAt d o depth id pin := by
  induction depth generalizing id pin with
  | zero => simp [outputAt] at value
  | succ depth ih =>
    rw [visitsAt, visitsAt]
    cases published : o.value? id pin with
    | some v => rfl
    | none =>
      cases found : d.node? id with
      | none => rfl
      | some n =>
        rw [outputAt, published, found] at value
        have inputs := isSome_produce_iff.1 value
        simp only [List.append_cancel_right_eq]
        apply List.flatMap_congr
        intro p mem
        cases fed : d.dataSource n.id p with
        | none => rfl
        | some out => exact ih (inputs p mem out.1 out.2 fed)

theorem Ends.visitsAt_eq {names : String → Prop} (ends : Ends names d) (o : Outputs) {depth : Nat}
    (enough : depthOf d ≤ depth) {id : String} (here : names id) (pin : String) :
    visitsAt d o depth id pin = visits d o id pin := by
  induction enough with
  | refl => rfl
  | step le ih => rw [visitsAt_succ (by rw [ends.outputAt_eq o le here]; rfl), ih]

/-- Reading an input evaluates an output, at whatever depth. -/
def Evaluates (d : Document) (o : Outputs) (id pin : String) (a : String × String) : Prop :=
  ∃ source, d.dataSource id pin = some source ∧ Relation.ReflTransGen (Asks d o) source a

theorem asks_of_mem_visitsAt {depth : Nat} {a : String × String} {v : Visit}
    (mem : v ∈ visitsAt d o depth a.1 a.2) :
    Relation.ReflTransGen (Asks d o) a (v.id, v.pin) := by
  induction depth generalizing a with
  | zero => cases mem
  | succ depth ih =>
    rw [visitsAt] at mem
    split at mem
    · next n unpublished found =>
      rcases List.mem_append.1 mem with earlier | last
      · obtain ⟨pin, input, later⟩ := List.mem_flatMap.1 earlier
        split at later
        · next source sourcePin fed =>
          exact .head ⟨unpublished, n, found, pin, input, fed⟩ (ih (a := (source, sourcePin)) later)
        · cases later
      · cases List.mem_singleton.1 last
        exact .refl
    · cases mem

theorem evaluates_of_mem_inputVisits {id pin : String} {v : Visit}
    (mem : v ∈ inputVisits d o id pin) : Evaluates d o id pin (v.id, v.pin) := by
  unfold inputVisits at mem
  split at mem
  · next source sourcePin fed => exact ⟨(source, sourcePin), fed, asks_of_mem_visitsAt mem⟩
  · cases mem

end Evaluation
end MacroGraph
