import MacroGraph.Proofs.Document.Beside
import MacroGraph.Proofs.Evaluation

namespace MacroGraph

/-- Two documents say the same of the names of a set that their connections do not leave. -/
structure Agree (names : String → Prop) (d e : Document) : Prop where
  start : d.start = e.start
  starts : names d.start
  node : ∀ id, names id → d.node? id = e.node? id
  source : ∀ id pin, names id → d.dataSource id pin = e.dataSource id pin
  next : ∀ id pin, names id → d.nextExec id pin = e.nextExec id pin
  fed : ∀ id pin source sourcePin, names id → d.dataSource id pin = some (source, sourcePin) →
    names source
  leads : ∀ id pin target, names id → d.nextExec id pin = some target → names target

namespace Agree
open Evaluation
variable {names : String → Prop} {d e : Document} (agree : Agree names d e)
include agree

theorem inputWith_eq {f g : String → String → Option Value}
    (same : ∀ id pin, names id → f id pin = g id pin) {id : String} (here : names id)
    (pin : String) (kind : ValueKind) (fallback : Value) :
    inputWith d f id pin kind fallback = inputWith e g id pin kind fallback :=
  inputWith_congr (agree.source id pin here)
    (fun out fed => same out.1 out.2 (agree.fed id pin out.1 out.2 here fed)) kind fallback

theorem produce_eq {f g : String → String → Option Value}
    (same : ∀ id pin, names id → f id pin = g id pin) {n : Node} (here : names n.id) :
    produce d f n = produce e g n := by
  unfold produce
  simp only [agree.inputWith_eq same here]

theorem outputAt_eq (o : Outputs) (depth : Nat) {id : String} (here : names id) (pin : String) :
    outputAt d o depth id pin = outputAt e o depth id pin := by
  induction depth generalizing id pin with
  | zero => rfl
  | succ depth ih =>
    rw [outputAt, outputAt, ← agree.node id here]
    cases o.value? id pin with
    | some v => rfl
    | none =>
      cases found : d.node? id with
      | none => rfl
      | some n =>
        have same : names n.id := by rwa [Document.id_of_node? found]
        exact agree.produce_eq (fun id pin here => ih here pin) same

/-- Evaluation ends in both when the second one has room for what the first one takes. -/
theorem ends_of_le (ends : Ends names d) (le : d.dataOnlyCount ≤ e.dataOnlyCount) :
    Ends names e := by
  intro o id pin here
  have deep : depthOf d ≤ depthOf e := Nat.succ_le_succ le
  rw [← agree.outputAt_eq o _ here, ends.outputAt_eq o deep here]
  rfl

theorem names_of_evaluates {o : Outputs} {id pin : String} {a : String × String}
    (here : names id) (evaluates : Evaluates d o id pin a) : names a.1 := by
  obtain ⟨source, found, calls⟩ := evaluates
  induction calls with
  | refl => exact agree.fed id pin source.1 source.2 here found
  | @tail b c _ asks ih =>
    obtain ⟨_, n, node, pin, _, fed⟩ := asks
    rw [Document.id_of_node? node] at fed
    exact agree.fed b.1 pin c.1 c.2 ih fed

section
variable (ends : Ends names d) (ends' : Ends names e) (o : Outputs)
include ends ends'

theorem output_eq {id : String} (here : names id) (pin : String) :
    output d o id pin = output e o id pin := by
  have one := ends.outputAt_eq o (Nat.le_max_left (depthOf d) (depthOf e)) here pin
  have other := ends'.outputAt_eq o (Nat.le_max_right (depthOf d) (depthOf e)) here pin
  rw [agree.outputAt_eq o _ here pin, other] at one
  exact (Option.some.inj one).symm

theorem input_eq {n : Node} (here : names n.id) (pin : String) (kind : ValueKind)
    (fallback : Value) : input d o n pin kind fallback = input e o n pin kind fallback := by
  unfold input resolve
  rw [agree.inputWith_eq (fun id pin here => congrArg some (agree.output_eq ends ends' o here pin))
    here]

theorem visitsAt_eq (depth : Nat) {id : String} (here : names id) (pin : String) :
    visitsAt d o depth id pin = visitsAt e o depth id pin := by
  induction depth generalizing id pin with
  | zero => rfl
  | succ depth ih =>
    rw [visitsAt, visitsAt, ← agree.node id here, agree.output_eq ends ends' o here]
    cases o.value? id pin with
    | some v => rfl
    | none =>
      cases found : d.node? id with
      | none => rfl
      | some n =>
        have same : names n.id := by rwa [Document.id_of_node? found]
        simp only [List.append_cancel_right_eq]
        apply List.flatMap_congr
        intro p mem
        rw [← agree.source n.id p same]
        cases fed : d.dataSource n.id p with
        | none => rfl
        | some out => exact ih (agree.fed n.id p out.1 out.2 same fed) out.2

theorem inputVisits_eq {id : String} (here : names id) (pin : String) :
    inputVisits d o id pin = inputVisits e o id pin := by
  unfold inputVisits
  rw [← agree.source id pin here]
  cases fed : d.dataSource id pin with
  | none => rfl
  | some out =>
    have source := agree.fed id pin out.1 out.2 here fed
    simp only
    rw [← ends.visitsAt_eq o (Nat.le_max_left (depthOf d) (depthOf e)) source,
      ← ends'.visitsAt_eq o (Nat.le_max_right (depthOf d) (depthOf e)) source,
      agree.visitsAt_eq ends ends' o _ source]

end
end Agree

theorem Beside.agree {d e : Document} {ns₂ : List Node} {cs₂ : List Connection}
    (h : Beside d.nodes d.connections ns₂ cs₂ e.nodes e.connections) (valid : d.Valid)
    (valid' : e.Valid) (start : d.start = e.start) : Agree (Named d.nodes) d e := by
  obtain ⟨w, indexed⟩ := Document.valid_iff.1 valid
  obtain ⟨w', indexed'⟩ := Document.valid_iff.1 valid'
  have source : ∀ id pin, d.dataSource id pin =
      (firstInto? d.connections (id, pin)).map Connection.output := by
    intro id pin
    rw [Document.dataSource, indexed, PinIndex.lookup_ofConnections_data]
  refine ⟨start, ?starts, ?node, ?source, ?next, ?fed, ?leads⟩
  case starts =>
    obtain ⟨n, mem, same, _⟩ := w.starts
    exact ⟨n, mem, same⟩
  case node =>
    rintro _ ⟨n, mem, rfl⟩
    rw [valid.node?_eq_some_iff.2 ⟨mem, rfl⟩,
      valid'.node?_eq_some_iff.2 ⟨h.nodes.mem_iff.2 (.inl mem), rfl⟩]
  case source =>
    intro id pin named
    rw [source, Document.dataSource, indexed', PinIndex.lookup_ofConnections_data,
      h.firstInto?_eq named]
  case next =>
    intro id pin named
    apply Option.ext
    intro target
    rw [valid.nextExec_eq_some_iff, valid'.nextExec_eq_some_iff]
    refine exists_congr fun c => ⟨?_, ?_⟩
    · rintro ⟨mem, exec, out, into⟩
      exact ⟨h.connections.mem_iff.2 (.inl mem), exec, out, into⟩
    rintro ⟨mem, exec, out, into⟩
    have here : Named d.nodes c.source := by rwa [show c.source = id from congrArg Prod.fst out]
    exact ⟨h.mem_first here mem, exec, out, into⟩
  case fed =>
    intro id pin from_ sourcePin named found
    rw [source] at found
    obtain ⟨c, first, out⟩ := Option.map_eq_some_iff.1 found
    rw [← show c.source = from_ from congrArg Prod.fst out]
    exact (w.attached c (List.mem_of_find?_eq_some first)).1
  case leads =>
    intro id pin target named found
    obtain ⟨c, mem, _, _, rfl⟩ := valid.nextExec_eq_some_iff.1 found
    exact (w.attached c mem).2

end MacroGraph
