import MacroGraph.Proofs.Compile.Answers
import MacroGraph.Proofs.Document.Rooting

/-!
Another start for a compiled document. What a definition keeps does not depend on its start, so
rooting the document anew gives what compiling anew gives, unless the new start reaches a node that
was left out: `rerooting_agrees_with_recompiling`.
-/
namespace MacroGraph
namespace Document

theorem checkStart_error {nodes : List Node} {start : String} {e : DocumentError}
    (refused : checkStart nodes start = .error e) :
    e = .startMissing start ∨ ∃ n ∈ nodes, n.id = start ∧ e = .notAStart start n.kind.typeName := by
  unfold checkStart at refused
  split at refused
  · cases refused
    exact .inl rfl
  · next n found =>
    obtain ⟨mem, same⟩ := mem_of_nodeIn? found
    split at refused
    · cases refused
    · cases refused
      exact .inr ⟨n, mem, same, by rw [same]⟩

end Document

namespace Compile
variable {registry : Registry} {serial : Nat} {d : Definition} {doc : Document}

/-- Compiling at another start fails at an entry of unknown type that is reached from there, and
otherwise is left to the check of the start. -/
theorem document_at (compiled : document registry serial d = .ok doc) (start : String)
    (serial' : Nat) :
    (∃ n, Lacks registry { d with start } n ∧
      document registry serial' { d with start } = .error (.unknownType n.id n.typeName)) ∨
    (∀ n, ¬ Lacks registry { d with start } n) ∧
      document registry serial' { d with start } =
        (doc.withStart start).map fun rooted => { rooted with serial := serial' } := by
  obtain ⟨flowing, _, w, rfl⟩ := document_eq_ok_iff.1 compiled
  have answers := answers_document registry serial' { d with start }
  generalize document registry serial' { d with start } = again at answers ⊢
  cases answers with
  | unknownFlow split _ unread =>
    have listed : _ ∈ d.connections := split ▸ List.mem_append_right _ List.mem_cons_self
    obtain ⟨flow, spelled⟩ := isSome_ofName?_iff.1 (flowing _ listed)
    exact absurd spelled (unread flow)
  | unknownType _ _ _ lacks => exact .inl ⟨_, lacks, rfl⟩
  | built read typed complete =>
    refine .inr ⟨complete, ?_⟩
    obtain rfl := eq_parsed_of_readAs read
    obtain rfl := forall₂_typed_iff.1 typed
    rw [Document.withStart_eq, ← kept_unknown_eq,
      show kept (unknown registry d.nodes) (parsed d.connections) = keptOf registry d from rfl,
      Document.build_of_consistent w.toConsistent]
    cases Document.checkStart (known registry d.nodes) start <;> rfl

/-- A definition that compiles is compiled anew at another start, and its document is rooted there.
Both give documents that are the same but for their serial numbers; or both fail with the same
error, because no start is there; or compiling fails at an entry of unknown type. It fails so exactly
when the other start reaches such an entry, and there the document can still be rooted at every start
it has: it is a macro from which something is missing. -/
theorem rerooting_agrees_with_recompiling (compiled : document registry serial d = .ok doc)
    (start : String) (serial' : Nat) :
    let again := document registry serial' { d with start }
    ((∃ fresh, again = .ok fresh ∧ doc.withStart start = .ok { fresh with serial := doc.serial }) ∨
      (∃ e, (e = .startMissing start ∨ ∃ typeName, e = .notAStart start typeName) ∧
        again = .error e ∧ doc.withStart start = .error e) ∨
      (∃ n, Lacks registry { d with start } n ∧
        again = .error (.unknownType n.id n.typeName)) ∧
      ∀ n, doc.node? start = some n → n.kind = .start →
        doc.withStart start = .ok { doc with start }) ∧
    ((∃ id typeName, again = .error (.unknownType id typeName)) ↔
      ∃ n, Lacks registry { d with start } n) := by
  intro again
  rcases document_at compiled start serial' with ⟨n, lacks, fails⟩ | ⟨complete, same⟩
  · refine ⟨.inr (.inr ⟨⟨n, lacks, fails⟩, ?_⟩), fun _ => ⟨n, lacks⟩, fun _ => ⟨_, _, fails⟩⟩
    intro root found kind
    have starts : Document.checkStart doc.nodes start = .ok () := by
      rw [Document.node?] at found
      simp [Document.checkStart, found, kind]
    rw [Document.withStart_eq, starts]
    rfl
  · have never : ¬ ∃ n, Lacks registry { d with start } n := not_exists.2 complete
    rw [Document.withStart_eq] at same ⊢
    cases checked : Document.checkStart doc.nodes start with
    | ok _ =>
      rw [checked] at same
      refine ⟨.inl ⟨_, same, rfl⟩, ?_, fun lacks => absurd lacks never⟩
      rintro ⟨id, typeName, fails⟩
      cases same.symm.trans fails
    | error e =>
      rw [checked] at same
      have reason := Document.checkStart_error checked
      refine ⟨.inr (.inl ⟨e, ?_, same, rfl⟩), ?_, fun lacks => absurd lacks never⟩
      · rcases reason with missing | ⟨n, _, _, other⟩
        · exact .inl missing
        · exact .inr ⟨_, other⟩
      · rintro ⟨id, typeName, fails⟩
        cases same.symm.trans fails
        rcases reason with missing | ⟨_, _, _, other⟩
        · cases missing
        · cases other

def forked : Definition where
  start := "a"
  nodes := [⟨"a", "start", []⟩, ⟨"b", "start", []⟩, ⟨"e", "start", []⟩, ⟨"x", "plugin", []⟩,
    ⟨"c", "mouse_click", []⟩]
  connections := [⟨"a", "exec", "c", "exec", "exec"⟩, ⟨"b", "exec", "x", "exec", "exec"⟩,
    ⟨"x", "exec", "c", "exec", "exec"⟩, ⟨"e", "exec", "c", "exec", "exec"⟩]

/-- At another start that leads straight to the click both give the same, and at the click both fail.
At the start that needs the plugin compiling fails, and the document rooted there ends at once. -/
theorem forked_rerooted :
    ∃ doc, document .standard 0 forked = .ok doc ∧
      (∃ fresh, document .standard 1 { forked with start := "e" } = .ok fresh ∧
        doc.withStart "e" = .ok { fresh with serial := 0 }) ∧
      document .standard 1 { forked with start := "c" } = .error (.notAStart "c" "mouse_click") ∧
      doc.withStart "c" = .error (.notAStart "c" "mouse_click") ∧
      document .standard 1 { forked with start := "b" } = .error (.unknownType "x" "plugin") ∧
      doc.withStart "b" = .ok { doc with start := "b" } ∧ doc.nextExec "b" Pin.exec = none := by
  obtain ⟨doc, compiled⟩ : ∃ doc, document .standard 0 forked = .ok doc := by
    refine ⟨⟨0, known .standard forked.nodes, keptOf .standard forked, "a",
      .ofConnections (keptOf .standard forked)⟩, ?_⟩
    decide +kernel
  have parts := document_eq_ok_iff.1 compiled
  have beside : ∃ fresh, document .standard 1 { forked with start := "e" } = .ok fresh := by
    refine ⟨⟨1, known .standard forked.nodes, keptOf .standard forked, "e",
      .ofConnections (keptOf .standard forked)⟩, ?_⟩
    decide +kernel
  have refused : document .standard 1 { forked with start := "c" } =
      .error (.notAStart "c" "mouse_click") := by decide +kernel
  have lacking : document .standard 1 { forked with start := "b" } =
      .error (.unknownType "x" "plugin") := by decide +kernel
  refine ⟨doc, compiled, ?same, refused, ?fails, lacking, ?roots, ?ends⟩
  case same =>
    obtain ⟨fresh, recompiled⟩ := beside
    obtain ⟨agrees, _⟩ := rerooting_agrees_with_recompiling compiled "e" 1
    rcases agrees with ⟨again, made, rooted⟩ | ⟨e, _, fails, _⟩ | ⟨⟨n, _, fails⟩, _⟩
    · obtain ⟨_, _, _, rfl⟩ := parts
      exact ⟨again, made, rooted⟩
    · cases recompiled.symm.trans fails
    · cases recompiled.symm.trans fails
  case fails =>
    obtain ⟨agrees, _⟩ := rerooting_agrees_with_recompiling compiled "c" 1
    rcases agrees with ⟨again, made, _⟩ | ⟨e, _, fails, rooted⟩ | ⟨⟨n, _, fails⟩, _⟩
    · cases refused.symm.trans made
    · cases refused.symm.trans fails
      exact rooted
    · cases refused.symm.trans fails
  case roots =>
    obtain ⟨agrees, _⟩ := rerooting_agrees_with_recompiling compiled "b" 1
    rcases agrees with ⟨again, made, _⟩ | ⟨e, reason, fails, _⟩ | ⟨_, roots⟩
    · cases lacking.symm.trans made
    · cases lacking.symm.trans fails
      rcases reason with missing | ⟨_, other⟩
      · cases missing
      · cases other
    · obtain ⟨_, _, _, rfl⟩ := parts
      exact roots ⟨"b", .start, []⟩ (by decide +kernel) rfl
  case ends =>
    obtain ⟨_, _, _, rfl⟩ := parts
    decide +kernel

end Compile
end MacroGraph
