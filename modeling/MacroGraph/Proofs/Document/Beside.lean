import MacroGraph.Proofs.Document.WellFormed
import MacroGraph.Proofs.Interleaving

namespace MacroGraph

def Named (nodes : List Node) (id : String) : Prop := ∃ n ∈ nodes, n.id = id

def Avoids (connections : List Connection) (nodes : List Node) : Prop :=
  ∀ c ∈ connections, ¬ Named nodes c.source ∧ ¬ Named nodes c.target

/-- A graph is made of two that do not name each other. -/
structure Beside (ns₁ : List Node) (cs₁ : List Connection) (ns₂ : List Node)
    (cs₂ : List Connection) (ns : List Node) (cs : List Connection) : Prop where
  nodes : Interleaves ns₁ ns₂ ns
  connections : Interleaves cs₁ cs₂ cs
  apart : ∀ id, Named ns₁ id → ¬ Named ns₂ id
  left : Avoids cs₁ ns₂
  right : Avoids cs₂ ns₁

theorem ProducesData.named {nodes : List Node} {id : String} (h : ProducesData nodes id) :
    Named nodes id := by
  obtain ⟨n, mem, same, _⟩ := h
  exact ⟨n, mem, same⟩

/-- A closed set is not left along a relation that agrees with another one on it. -/
theorem transGen_of_closed {α : Type} {r s : α → α → Prop} {inside : α → Prop}
    (closed : ∀ a b, inside a → r a b → s a b ∧ inside b) {a b : α} (here : inside a)
    (h : Relation.TransGen r a b) : Relation.TransGen s a b ∧ inside b := by
  induction h with
  | single first =>
    obtain ⟨step, there⟩ := closed _ _ here first
    exact ⟨.single step, there⟩
  | tail _ last ih =>
    obtain ⟨path, between⟩ := ih
    obtain ⟨step, there⟩ := closed _ _ between last
    exact ⟨path.tail step, there⟩

theorem reflTransGen_of_closed {α : Type} {r s : α → α → Prop} {inside : α → Prop}
    (closed : ∀ a b, inside a → r a b → s a b ∧ inside b) {a b : α} (here : inside a)
    (h : Relation.ReflTransGen r a b) : Relation.ReflTransGen s a b ∧ inside b := by
  induction h with
  | refl => exact ⟨.refl, here⟩
  | tail _ last ih =>
    obtain ⟨path, between⟩ := ih
    obtain ⟨step, there⟩ := closed _ _ between last
    exact ⟨path.tail step, there⟩

namespace Beside
variable {ns₁ ns₂ ns : List Node} {cs₁ cs₂ cs : List Connection}

theorem swap (h : Beside ns₁ cs₁ ns₂ cs₂ ns cs) : Beside ns₂ cs₂ ns₁ cs₁ ns cs where
  nodes := h.nodes.swap
  connections := h.connections.swap
  apart := fun id second first => h.apart id first second
  left := h.right
  right := h.left

theorem named_iff (h : Beside ns₁ cs₁ ns₂ cs₂ ns cs) {id : String} :
    Named ns id ↔ Named ns₁ id ∨ Named ns₂ id := by
  simp only [Named, h.nodes.mem_iff, or_and_right, exists_or]

theorem producesData_iff (h : Beside ns₁ cs₁ ns₂ cs₂ ns cs) {id : String} :
    ProducesData ns id ↔ ProducesData ns₁ id ∨ ProducesData ns₂ id := by
  simp only [ProducesData, h.nodes.mem_iff, or_and_right, exists_or]

theorem firstInto?_eq (h : Beside ns₁ cs₁ ns₂ cs₂ ns cs) {id : String} (named : Named ns₁ id)
    (pin : String) : firstInto? cs (id, pin) = firstInto? cs₁ (id, pin) := by
  apply h.connections.find?_eq
  intro c mem
  have other : c.target ≠ id := by
    rintro rfl
    exact (h.right c mem).2 named
  simp [Connection.input, other]

theorem reads_of_first (h : Beside ns₁ cs₁ ns₂ cs₂ ns cs) {a b : String}
    (reads : Reads ns₁ cs₁ a b) : Reads ns cs a b := by
  obtain ⟨⟨pin, c, first, source⟩, reader, fed⟩ := reads
  exact ⟨⟨pin, c, (h.firstInto?_eq reader.named pin).trans first, source⟩,
    h.producesData_iff.2 (.inl reader), h.producesData_iff.2 (.inl fed)⟩

theorem reads_in_first (h : Beside ns₁ cs₁ ns₂ cs₂ ns cs) {a b : String} (named : Named ns₁ a)
    (reads : Reads ns cs a b) : Reads ns₁ cs₁ a b ∧ Named ns₁ b := by
  obtain ⟨⟨pin, c, first, rfl⟩, reader, fed⟩ := reads
  rw [h.firstInto?_eq named pin] at first
  have mem : c ∈ cs₁ := List.mem_of_find?_eq_some first
  have reader : ProducesData ns₁ a :=
    (h.producesData_iff.1 reader).resolve_right fun other => h.apart a named other.named
  have fed : ProducesData ns₁ c.source :=
    (h.producesData_iff.1 fed).resolve_right fun other => (h.left c mem).1 other.named
  exact ⟨⟨⟨pin, c, first, rfl⟩, reader, fed⟩, fed.named⟩

theorem leads_of_first (h : Beside ns₁ cs₁ ns₂ cs₂ ns cs) {a b : String}
    (leads : Leads cs₁ a b) : Leads cs a b := by
  obtain ⟨c, mem, rest⟩ := leads
  exact ⟨c, h.connections.mem_iff.2 (.inl mem), rest⟩

theorem mem_first (h : Beside ns₁ cs₁ ns₂ cs₂ ns cs) {c : Connection}
    (named : Named ns₁ c.source) (mem : c ∈ cs) : c ∈ cs₁ :=
  (h.connections.mem_iff.1 mem).resolve_right fun other => (h.right c other).1 named

theorem leads_in_first (h : Beside ns₁ cs₁ ns₂ cs₂ ns cs) (consistent : Consistent ns₁ cs₁)
    {a b : String} (named : Named ns₁ a) (leads : Leads cs a b) :
    Leads cs₁ a b ∧ Named ns₁ b := by
  obtain ⟨c, mem, exec, rfl, rfl⟩ := leads
  have mem := h.mem_first named mem
  exact ⟨⟨c, mem, exec, rfl, rfl⟩, (consistent.attached c mem).2⟩

theorem outputs (h : Beside ns₁ cs₁ ns₂ cs₂ ns cs) :
    Interleaves ((cs₁.filter Connection.isExec).map Connection.output)
      ((cs₂.filter Connection.isExec).map Connection.output)
      ((cs.filter Connection.isExec).map Connection.output) :=
  (h.connections.filter _).map _

theorem consistent_first (h : Beside ns₁ cs₁ ns₂ cs₂ ns cs) (whole : Consistent ns cs) :
    Consistent ns₁ cs₁ where
  distinct := by
    have distinct := (h.nodes.map Node.id).perm.nodup_iff.1 whole.distinct
    exact (List.nodup_append.1 distinct).1
  attached := by
    intro c mem
    obtain ⟨source, target⟩ := whole.attached c (h.connections.mem_iff.2 (.inl mem))
    exact ⟨(h.named_iff.1 source).resolve_right (h.left c mem).1,
      (h.named_iff.1 target).resolve_right (h.left c mem).2⟩
  execPins := by
    intro c mem exec
    obtain ⟨source, target⟩ := whole.execPins c (h.connections.mem_iff.2 (.inl mem)) exec
    exact ⟨fun data => source (h.producesData_iff.2 (.inl data)),
      fun data => target (h.producesData_iff.2 (.inl data))⟩
  single := (List.nodup_append.1 (h.outputs.perm.nodup_iff.1 whole.single)).1
  acyclic := fun id cycle => whole.acyclic id
    (Relation.TransGen.mono (fun a b => h.reads_of_first) _ _ cycle)
  noReentry := fun l node kind c mem exec out back =>
    whole.noReentry l (h.nodes.mem_iff.2 (.inl node)) kind c (h.connections.mem_iff.2 (.inl mem))
      exec out (Relation.ReflTransGen.mono (fun a b => h.leads_of_first) _ _ back)

theorem execPins (h : Beside ns₁ cs₁ ns₂ cs₂ ns cs) (first : Consistent ns₁ cs₁) {c : Connection}
    (mem : c ∈ cs₁) (exec : c.flow = .exec) :
    ¬ ProducesData ns c.source ∧ ¬ ProducesData ns c.target := by
  obtain ⟨source, target⟩ := first.execPins c mem exec
  simp only [h.producesData_iff, not_or]
  exact ⟨⟨source, fun other => (h.left c mem).1 other.named⟩,
    ⟨target, fun other => (h.left c mem).2 other.named⟩⟩

theorem acyclic (h : Beside ns₁ cs₁ ns₂ cs₂ ns cs) (first : Consistent ns₁ cs₁) {id : String}
    (named : Named ns₁ id) : ¬ Relation.TransGen (Reads ns cs) id id := by
  intro cycle
  have closed : ∀ a b, Named ns₁ a → Reads ns cs a b → Reads ns₁ cs₁ a b ∧ Named ns₁ b :=
    fun a b => h.reads_in_first
  exact first.acyclic id (transGen_of_closed closed named cycle).1

theorem noReentry (h : Beside ns₁ cs₁ ns₂ cs₂ ns cs) (first : Consistent ns₁ cs₁) {l : Node}
    (node : l ∈ ns₁) (kind : l.kind = .loop ∨ l.kind = .whileLoop) {c : Connection} (mem : c ∈ cs)
    (exec : c.flow = .exec) (out : c.output = (l.id, Pin.loopBody)) :
    ¬ Relation.ReflTransGen (Leads cs) c.target l.id := by
  intro back
  have mem : c ∈ cs₁ := h.mem_first ⟨l, node, (congrArg Prod.fst out).symm⟩ mem
  have closed : ∀ a b, Named ns₁ a → Leads cs a b → Leads cs₁ a b ∧ Named ns₁ b :=
    fun a b => h.leads_in_first first
  exact first.noReentry l node kind c mem exec out
    (reflTransGen_of_closed closed (first.attached c mem).2 back).1

/-- Graphs side by side pass the checks exactly when each of them does. -/
theorem consistent_iff (h : Beside ns₁ cs₁ ns₂ cs₂ ns cs) :
    Consistent ns cs ↔ Consistent ns₁ cs₁ ∧ Consistent ns₂ cs₂ := by
  refine ⟨fun whole => ⟨h.consistent_first whole, h.swap.consistent_first whole⟩, ?_⟩
  rintro ⟨first, second⟩
  refine ⟨?distinct, ?attached, ?execPins, ?single, ?acyclic, ?noReentry⟩
  case distinct =>
    refine ((h.nodes.map Node.id).nodup_iff ?_).2 ⟨first.distinct, second.distinct⟩
    simp only [List.mem_map]
    rintro _ ⟨n, memn, rfl⟩ _ ⟨m, memm, rfl⟩ same
    exact h.apart n.id ⟨n, memn, rfl⟩ ⟨m, memm, same.symm⟩
  case attached =>
    intro c mem
    rcases h.connections.mem_iff.1 mem with mem | mem
    · exact (first.attached c mem).imp (h.named_iff.2 <| .inl ·) (h.named_iff.2 <| .inl ·)
    · exact (second.attached c mem).imp (h.named_iff.2 <| .inr ·) (h.named_iff.2 <| .inr ·)
  case execPins =>
    intro c mem exec
    rcases h.connections.mem_iff.1 mem with mem | mem
    · exact h.execPins first mem exec
    · exact h.swap.execPins second mem exec
  case single =>
    refine (h.outputs.nodup_iff ?_).2 ⟨first.single, second.single⟩
    simp only [List.mem_map, List.mem_filter]
    rintro _ ⟨c, ⟨mem, _⟩, rfl⟩ _ ⟨c', ⟨mem', _⟩, rfl⟩ same
    have source : c.source = c'.source := congrArg Prod.fst same
    exact (h.right c' mem').1 (source ▸ (first.attached c mem).1)
  case acyclic =>
    intro id cycle
    obtain ⟨b, reads, _⟩ := Relation.TransGen.head'_iff.1 cycle
    rcases h.producesData_iff.1 reads.2.1 with data | data
    · exact h.acyclic first data.named cycle
    · exact h.swap.acyclic second data.named cycle
  case noReentry =>
    intro l node kind c mem exec out
    rcases h.nodes.mem_iff.1 node with node | node
    · exact h.noReentry first node kind mem exec out
    · exact h.swap.noReentry second node kind mem exec out

end Beside
end MacroGraph
