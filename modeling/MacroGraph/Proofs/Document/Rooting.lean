import MacroGraph.Proofs.Document.WellFormed

/-!
Another start for a document. Of all the checks that a graph passes when it is built only one looks
at the start, so a document that is rooted anew is the document that would be built anew, but for
its number: `rerooting_equals_rebuilding`.
-/
namespace MacroGraph.Document
variable {nodes : List Node} {connections : List Connection} {start : String} {d : Document}

theorem withStart_eq (d : Document) (start : String) :
    d.withStart start = (checkStart d.nodes start).map fun _ => { d with start } := by
  unfold withStart
  cases checkStart d.nodes start <;> rfl

/-- Whether a build gets as far as to number its document: what may still fail then is a search. -/
def isNumbered (nodes : List Node) (connections : List Connection) (start : String) : Bool :=
  (duplicate? [] nodes).isNone && (checkStart nodes start).isOk &&
    (addConnections nodes {} connections).isOk

/-- Builds a document under the number that a counter shows. The counter goes on even when the
document fails a search and is dropped. -/
def buildNext (nodes : List Node) (connections : List Connection) (start : String)
    (counter : Nat) : Except DocumentError Document × Nat :=
  (build counter nodes connections start,
    if isNumbered nodes connections start then counter + 1 else counter)

/-- Any builds, whatever they are of, bring the counter from one number to another. -/
inductive Counts (before : Nat) : Nat → Prop where
  | none : Counts before before
  | build {now : Nat} (earlier : Counts before now) (nodes : List Node)
    (connections : List Connection) (start : String) :
    Counts before (buildNext nodes connections start now).2

theorem isNumbered_of_build {serial : Nat} (built : build serial nodes connections start = .ok d) :
    isNumbered nodes connections start = true := by
  unfold build at built
  split at built
  · cases built
  · next single =>
    split at built
    · cases built
    · next starts =>
      split at built
      · cases built
      · next index added =>
        simp [isNumbered, single, starts, added, Except.isOk, Except.toBool]

theorem Counts.le {before now : Nat} (counts : Counts before now) : before ≤ now := by
  induction counts with
  | none => exact Nat.le_refl before
  | @build now _ nodes connections start ih =>
    apply Nat.le_trans ih
    unfold buildNext
    split
    · exact Nat.le_succ now
    · exact Nat.le_refl now

theorem serial_lt_of_counts {counter now : Nat}
    (built : (buildNext nodes connections start counter).1 = .ok d)
    (since : Counts (buildNext nodes connections start counter).2 now) : d.serial < now := by
  have numbered : (buildNext nodes connections start counter).2 = counter + 1 :=
    if_pos (isNumbered_of_build built)
  obtain ⟨_, rfl⟩ := build_eq_ok_iff.1 built
  have passed := since.le
  rwa [numbered] at passed

/-- A document is built from a graph, and later the graph is built again at another start. Then
rooting the document there succeeds exactly when that does, with the same start, nodes, connections
and lookups, and fails with the same error. The document that is rooted anew is a copy of the first
one, which keeps its start, and the one that is built anew is not. -/
theorem rerooting_equals_rebuilding {counter now : Nat}
    (built : (buildNext nodes connections start counter).1 = .ok d)
    (since : Counts (buildNext nodes connections start counter).2 now) (root : String) :
    let again := (buildNext nodes connections root now).1
    ((∃ rooted, d.withStart root = .ok rooted) ↔ ∃ fresh, again = .ok fresh) ∧
      (∀ rooted fresh, d.withStart root = .ok rooted → again = .ok fresh →
        rooted = { fresh with serial := d.serial } ∧ rooted.start = root ∧
          rooted.nodes = nodes ∧ rooted.connections = connections ∧
          (∀ id pin, rooted.nextExec id pin = fresh.nextExec id pin ∧
            rooted.dataSource id pin = fresh.dataSource id pin) ∧
          rooted.isCopyOf d = true ∧ fresh.isCopyOf d = false) ∧
      (∀ e e', d.withStart root = .error e → again = .error e' → e = e') ∧
      d.start = start := by
  intro again
  have later : d.serial < now := serial_lt_of_counts built since
  obtain ⟨w, rfl⟩ := build_eq_ok_iff.1 built
  have fresh : again = (checkStart nodes root).map fun _ =>
      ⟨now, nodes, connections, root, .ofConnections connections⟩ :=
    build_of_consistent w.toConsistent now root
  rw [withStart_eq, fresh]
  cases checkStart nodes root with
  | error e =>
    refine ⟨?_, ?_, ?_, rfl⟩
    · simp [Except.map]
    · intro _ _ rooted
      cases rooted
    · intro _ _ refused refused'
      cases refused
      cases refused'
      rfl
  | ok _ =>
    refine ⟨?_, ?_, ?_, rfl⟩
    · simp [Except.map]
    · intro _ _ rooted fresh
      cases rooted
      cases fresh
      refine ⟨rfl, rfl, rfl, rfl, fun _ _ => ⟨rfl, rfl⟩, ?_, ?_⟩
      · simp [isCopyOf]
      · simpa [isCopyOf] using Nat.ne_of_gt later
    · intro _ _ refused
      cases refused

def twoStarts : List Node :=
  [⟨"a", .start, []⟩, ⟨"b", .start, []⟩, ⟨"l", .loop, []⟩, ⟨"c", .mouseClick, []⟩]

def clicking : List Connection :=
  [⟨"a", "exec", "l", "exec", .exec⟩, ⟨"b", "exec", "c", "exec", .exec⟩,
    ⟨"l", "Loop Body", "c", "exec", .exec⟩]

def circling : List Connection := clicking ++ [⟨"c", "exec", "l", "exec", .exec⟩]

/-- Between the two builds there is one that fails only when its document has a number. -/
theorem twoStarts_rerooted :
    ∃ d rooted fresh, (buildNext twoStarts clicking "a" 1).1 = .ok d ∧
      buildNext twoStarts circling "a" 2 = (.error (.loopReentry "l"), 3) ∧
      d.withStart "b" = .ok rooted ∧ (buildNext twoStarts clicking "b" 3).1 = .ok fresh ∧
      rooted = { fresh with serial := d.serial } ∧ fresh.isCopyOf d = false ∧
      d.withStart "c" = .error (.notAStart "c" "mouse_click") ∧
      (buildNext twoStarts clicking "c" 3).1 = .error (.notAStart "c" "mouse_click") := by
  obtain ⟨d, built⟩ : ∃ d, (buildNext twoStarts clicking "a" 1).1 = .ok d :=
    ⟨⟨1, twoStarts, clicking, "a", .ofConnections clicking⟩, by decide +kernel⟩
  obtain ⟨fresh, again⟩ : ∃ fresh, (buildNext twoStarts clicking "b" 3).1 = .ok fresh :=
    ⟨⟨3, twoStarts, clicking, "b", .ofConnections clicking⟩, by decide +kernel⟩
  have dropped : buildNext twoStarts circling "a" 2 = (.error (.loopReentry "l"), 3) := by
    decide +kernel
  have refused : (buildNext twoStarts clicking "c" 3).1 = .error (.notAStart "c" "mouse_click") := by
    decide +kernel
  have since : Counts (buildNext twoStarts clicking "a" 1).2 3 := by
    have counts : Counts 2 (buildNext twoStarts circling "a" 2).2 :=
      .build .none twoStarts circling "a"
    rwa [dropped] at counts
  obtain ⟨agree, same, _⟩ := rerooting_equals_rebuilding built since "b"
  obtain ⟨rooted, there⟩ := agree.2 ⟨fresh, again⟩
  obtain ⟨equal, _, _, _, _, _, other⟩ := same rooted fresh there again
  refine ⟨d, rooted, fresh, built, dropped, there, again, equal, other, ?_, refused⟩
  obtain ⟨agree, _, failing, _⟩ := rerooting_equals_rebuilding built since "c"
  cases fails : d.withStart "c" with
  | ok rooted =>
    obtain ⟨fresh, made⟩ := agree.1 ⟨rooted, fails⟩
    cases refused.symm.trans made
  | error e => rw [failing e _ fails refused]

end MacroGraph.Document
