import MacroGraph.Proofs.Compile
import MacroGraph.Proofs.Document.Agreement

namespace MacroGraph

/-- A canvas that holds two macros which do not name each other. -/
structure Canvas (d e whole : Definition) : Prop where
  nodes : Interleaves d.nodes e.nodes whole.nodes
  connections : Interleaves d.connections e.connections whole.connections
  apart : ∀ n ∈ d.nodes, ∀ m ∈ e.nodes, n.id ≠ m.id
  left : ∀ c ∈ d.connections, ∀ m ∈ e.nodes, c.source ≠ m.id ∧ c.target ≠ m.id
  right : ∀ c ∈ e.connections, ∀ n ∈ d.nodes, c.source ≠ n.id ∧ c.target ≠ n.id

namespace Compile
variable {registry : Registry}

/-- A macro passes all checks but those of a start and what it reaches. -/
structure Sound (registry : Registry) (d : Definition) : Prop where
  flowing : ∀ c ∈ d.connections, (Flow.ofName? c.flow).isSome = true
  consistent : Consistent (known registry d.nodes) (keptOf registry d)

theorem exists_of_named_known {entries : List NodeEntry} {id : String}
    (named : Named (known registry entries) id) : ∃ n ∈ entries, n.id = id := by
  obtain ⟨n, mem, rfl⟩ := named
  obtain ⟨entry, listed, made⟩ := List.mem_filterMap.1 mem
  obtain ⟨kind, _, rfl⟩ := Option.map_eq_some_iff.1 made
  exact ⟨entry, listed, rfl⟩

theorem exists_of_mem_parsed {entries : List ConnectionEntry} {c : Connection}
    (mem : c ∈ parsed entries) :
    ∃ entry ∈ entries, entry.source = c.source ∧ entry.target = c.target := by
  obtain ⟨entry, mem, made⟩ := List.mem_filterMap.1 mem
  refine ⟨entry, mem, ?_⟩
  cases flow : Flow.ofName? entry.flow with
  | none => simp [connection, flow, Except.toOption] at made
  | some f =>
    simp only [connection, flow, Except.toOption, Option.some.injEq] at made
    subst made
    exact ⟨rfl, rfl⟩

end Compile

namespace Canvas
open Compile
variable {registry : Registry} {d e whole : Definition}

theorem swap (canvas : Canvas d e whole) : Canvas e d whole where
  nodes := canvas.nodes.swap
  connections := canvas.connections.swap
  apart := fun m memm n memn same => canvas.apart n memn m memm same.symm
  left := canvas.right
  right := canvas.left

theorem parsed_interleaves (canvas : Canvas d e whole) :
    Interleaves (parsed d.connections) (parsed e.connections) (parsed whole.connections) :=
  canvas.connections.filterMap _

theorem unknown_interleaves (canvas : Canvas d e whole) :
    Interleaves (unknown registry d.nodes) (unknown registry e.nodes)
      (unknown registry whole.nodes) :=
  canvas.nodes.filter _

theorem avoids (canvas : Canvas d e whole) {c : Connection} (mem : c ∈ parsed d.connections)
    {m : NodeEntry} (other : m ∈ e.nodes) : c.source ≠ m.id ∧ c.target ≠ m.id := by
  obtain ⟨entry, mem, source, target⟩ := exists_of_mem_parsed mem
  rw [← source, ← target]
  exact canvas.left entry mem m other

theorem kept_first (canvas : Canvas d e whole) :
    kept (unknown registry whole.nodes) (parsed d.connections) = keptOf registry d := by
  have same : ∀ {id : String}, (∀ m ∈ e.nodes, id ≠ m.id) →
      ((unknown registry whole.nodes).map NodeEntry.id).contains id =
        ((unknown registry d.nodes).map NodeEntry.id).contains id := by
    intro id other
    rw [Bool.eq_iff_iff, List.contains_iff_mem, List.contains_iff_mem,
      (canvas.unknown_interleaves.map NodeEntry.id).mem_iff]
    apply or_iff_left
    intro second
    obtain ⟨m, mem, rfl⟩ := List.mem_map.1 second
    exact other m (mem_unknown_iff.1 mem).1 rfl
  apply List.filter_congr
  intro c mem
  rw [same fun m other => (canvas.avoids mem other).1,
    same fun m other => (canvas.avoids mem other).2]

theorem keptOf_interleaves (canvas : Canvas d e whole) :
    Interleaves (keptOf registry d) (keptOf registry e) (keptOf registry whole) := by
  rw [← canvas.kept_first, ← canvas.swap.kept_first]
  exact canvas.parsed_interleaves.filter _

theorem beside (canvas : Canvas d e whole) :
    Beside (known registry d.nodes) (keptOf registry d) (known registry e.nodes)
      (keptOf registry e) (known registry whole.nodes) (keptOf registry whole) := by
  have left : ∀ {d e : Definition}, Canvas d e whole →
      Avoids (keptOf registry d) (known registry e.nodes) := by
    intro d e canvas c mem
    have avoids := fun m => canvas.avoids (m := m) (mem_keptOf_iff.1 mem).1
    constructor
    · intro named
      obtain ⟨m, other, same⟩ := exists_of_named_known named
      exact (avoids m other).1 same.symm
    · intro named
      obtain ⟨m, other, same⟩ := exists_of_named_known named
      exact (avoids m other).2 same.symm
  refine ⟨canvas.nodes.filterMap _, canvas.keptOf_interleaves, ?_, left canvas, left canvas.swap⟩
  intro id first second
  obtain ⟨n, memn, rfl⟩ := exists_of_named_known first
  obtain ⟨m, memm, same⟩ := exists_of_named_known second
  exact canvas.apart n memn m memm same.symm

theorem touches_first (canvas : Canvas d e whole) {start id : String}
    (consistent : Consistent (known registry d.nodes) (keptOf registry d))
    (named : Named (known registry d.nodes) start)
    (apart : ∀ n ∈ unknown registry d.nodes,
      ¬ Relation.ReflTransGen (Touches (parsed d.connections)) start n.id)
    (path : Relation.ReflTransGen (Touches (parsed whole.connections)) start id) :
    Relation.ReflTransGen (Touches (parsed d.connections)) start id ∧
      Named (known registry d.nodes) id := by
  induction path with
  | refl => exact ⟨.refl, named⟩
  | @tail a b _ touches ih =>
    obtain ⟨path, here⟩ := ih
    obtain ⟨n, known, same⟩ := exists_of_named_known here
    obtain ⟨c, mem, ends⟩ := touches
    have mem : c ∈ parsed d.connections := by
      apply (canvas.parsed_interleaves.mem_iff.1 mem).resolve_right
      intro other
      obtain ⟨source, target⟩ := canvas.swap.avoids other known
      rcases ends with ⟨_, rfl, _⟩ | ⟨_, rfl, _⟩
      · exact source same.symm
      · exact target same.symm
    have later := path.tail ⟨c, mem, ends⟩
    refine ⟨later, ?_⟩
    have stays : c ∈ keptOf registry d := by
      refine mem_keptOf_iff.2 ⟨mem, fun n dropped => ?_⟩
      rcases ends with ⟨_, rfl, rfl⟩ | ⟨_, rfl, rfl⟩
      · exact ⟨fun same => apart n dropped (same ▸ path), fun same => apart n dropped (same ▸ later)⟩
      · exact ⟨fun same => apart n dropped (same ▸ later), fun same => apart n dropped (same ▸ path)⟩
    obtain ⟨source, target⟩ := consistent.attached c stays
    rcases ends with ⟨_, rfl, rfl⟩ | ⟨_, rfl, rfl⟩
    · exact target
    · exact source

/-- Beside a macro that compiles another one can only fail the checks of its own. -/
theorem document_iff (canvas : Canvas d e whole) {start : String} {serial : Nat}
    {alone : Document}
    (compiled : document registry serial { d with start } = .ok alone) (serial' : Nat) :
    (∃ rooted, document registry serial' { whole with start } = .ok rooted) ↔
      Sound registry e := by
  obtain ⟨flowing, apart, w, -⟩ := document_eq_ok_iff.1 compiled
  have consistent : Consistent (known registry whole.nodes) (keptOf registry whole) ↔
      Consistent (known registry d.nodes) (keptOf registry d) ∧
        Consistent (known registry e.nodes) (keptOf registry e) := canvas.beside.consistent_iff
  simp only [document_eq_ok_iff]
  constructor
  · rintro ⟨rooted, flowing', -, w', -⟩
    exact ⟨fun c mem => flowing' c (canvas.connections.mem_iff.2 (.inr mem)),
      (consistent.1 w'.toConsistent).2⟩
  · intro sound
    refine ⟨_, ?flowing, ?apart, ?wellFormed, rfl⟩
    case flowing =>
      intro c mem
      exact (canvas.connections.mem_iff.1 mem).elim (flowing c) (sound.flowing c)
    case wellFormed =>
      obtain ⟨n, mem, same⟩ := w.starts
      exact { consistent.2 ⟨w.toConsistent, sound.consistent⟩ with
        starts := ⟨n, (canvas.nodes.filterMap _).mem_iff.2 (.inl mem), same⟩ }
    case apart =>
      intro n mem path
      obtain ⟨m, node, named, -⟩ := w.starts
      obtain ⟨path, here⟩ := canvas.touches_first w.toConsistent ⟨m, node, named⟩ apart path
      rcases canvas.unknown_interleaves.mem_iff.1 mem with mem | mem
      · exact apart n mem path
      · obtain ⟨n', listed, same⟩ := exists_of_named_known here
        exact canvas.apart n' listed n (mem_unknown_iff.1 mem).1 same

/-- What a start compiles to alone and beside another macro agrees on its own names. -/
theorem agree (canvas : Canvas d e whole) {start : String} {serial serial' : Nat}
    {alone rooted : Document}
    (compiled : document registry serial { d with start } = .ok alone)
    (compiled' : document registry serial' { whole with start } = .ok rooted) :
    Agree (Named alone.nodes) alone rooted := by
  have valid := valid_of_document compiled
  have valid' := valid_of_document compiled'
  obtain ⟨_, _, _, rfl⟩ := document_eq_ok_iff.1 compiled
  obtain ⟨_, _, _, rfl⟩ := document_eq_ok_iff.1 compiled'
  exact Beside.agree canvas.beside valid valid' rfl

end Canvas
end MacroGraph
