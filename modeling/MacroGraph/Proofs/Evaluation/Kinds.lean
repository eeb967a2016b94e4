import MacroGraph.Proofs.Evaluation

namespace MacroGraph

/-- Values of a kind, where numbers are finite. -/
inductive Value.HasKind : ValueKind → Value → Prop where
  | number {x : Binary64} (finite : x.isFinite = true) : HasKind .number (.number x)
  | text (s : String) : HasKind .text (.text s)
  | bool (b : Bool) : HasKind .bool (.bool b)

theorem Value.hasKind_coerce (v : Value) (kind : ValueKind) : HasKind kind (v.coerce kind) := by
  cases kind with
  | number => exact .number v.isFinite_toNumber
  | text => exact .text v.toText
  | bool => exact .bool v.toBool

theorem Value.HasKind.ne_null {kind : ValueKind} {v : Value} (sound : HasKind kind v) :
    v ≠ .null := by
  cases sound <;> simp

/-- The kind of what a node produces, if its kind produces data. -/
def NodeKind.produces? : NodeKind → Option ValueKind
  | numberLiteral | math => some .number
  | stringLiteral => some .text
  | compare => some .bool
  | _ => none

theorem NodeKind.isSome_produces? (k : NodeKind) : k.produces?.isSome = k.isDataOnly := by
  cases k <;> rfl

namespace Evaluation
variable {d : Document} {o : Outputs}

theorem hasKind_calculate (operator : String) (a b : Binary64) :
    Value.HasKind .number (.number (calculate operator a b)) :=
  .number (Value.isFinite_finiteOrZero _)

theorem output_of_published {id pin : String} {v : Value} (published : o.value? id pin = some v) :
    output d o id pin = v := by
  simp [output, depthOf, outputAt, published]

theorem produce_of_unpublished (valid : d.Valid) {id pin : String} {n : Node}
    (found : d.node? id = some n) (unpublished : o.value? id pin = none) :
    produce d (fun i p => some (output d o i p)) n = some (output d o id pin) := by
  have ends := ends_of_valid valid fun _ => True
  have deep : outputAt d o (depthOf d) = fun i p => some (output d o i p) := by
    funext i p
    exact ends.outputAt_eq o (Nat.le_refl _) trivial p
  have one : outputAt d o (depthOf d + 1) id pin = some (output d o id pin) :=
    ends.outputAt_eq o (Nat.le_succ _) trivial pin
  rwa [outputAt, unpublished, found, deep] at one

theorem inputWith_output (id pin : String) (kind : ValueKind) (fallback : Value) :
    inputWith d (fun i p => some (output d o i p)) id pin kind fallback =
      some (resolve d o id pin kind fallback) := by
  unfold resolve inputWith
  split <;> rfl

theorem output_math (valid : d.Valid) {id pin : String} {n : Node} (found : d.node? id = some n)
    (kind : n.kind = .math) (unpublished : o.value? id pin = none) :
    output d o id pin = .number
      (calculate (n.option "Operator" "add") (number d o n "A" .zero) (number d o n "B" .zero)) := by
  have made := produce_of_unpublished valid found unpublished
  simp only [produce, kind, inputWith_output] at made
  exact (Option.some.inj made).symm

theorem output_compare (valid : d.Valid) {id pin : String} {n : Node} (found : d.node? id = some n)
    (kind : n.kind = .compare) (unpublished : o.value? id pin = none) :
    output d o id pin = .bool (compareValues (n.option "Operator" "==")
      (input d o n "A" (comparedKind n) (zeroOf (comparedKind n)))
      (input d o n "B" (comparedKind n) (zeroOf (comparedKind n)))) := by
  have made := produce_of_unpublished valid found unpublished
  simp only [produce, kind, inputWith_output] at made
  exact (Option.some.inj made).symm

/-- A node produces a value of the kind of its own, or null when it is not data-only. -/
theorem hasKind_output (valid : d.Valid) {id pin : String} {n : Node} (found : d.node? id = some n)
    (unpublished : o.value? id pin = none) :
    match n.kind.produces? with
    | some kind => Value.HasKind kind (output d o id pin)
    | none => output d o id pin = .null := by
  have made := produce_of_unpublished valid found unpublished
  cases kind : n.kind with
  | numberLiteral | stringLiteral =>
    simp only [produce, kind] at made
    rw [← Option.some.inj made]
    exact Value.hasKind_coerce _ _
  | math =>
    rw [output_math valid found kind unpublished]
    exact hasKind_calculate _ _ _
  | compare =>
    rw [output_compare valid found kind unpublished]
    exact .bool _
  | _ =>
    simp only [produce, kind] at made
    exact (Option.some.inj made).symm

theorem hasKind_resolve (d : Document) (o : Outputs) (id pin : String) (kind : ValueKind)
    (fallback : Value) : Value.HasKind kind (resolve d o id pin kind fallback) := by
  unfold resolve inputWith
  split <;> exact Value.hasKind_coerce _ _

/-- Null is published at an output, or nothing is and its node is not data-only. -/
def Silent (d : Document) (o : Outputs) (id pin : String) : Prop :=
  o.value? id pin = some .null ∨ o.value? id pin = none ∧ ¬ ProducesData d.nodes id

theorem output_eq_null_iff (valid : d.Valid) {id pin : String} :
    output d o id pin = .null ↔ Silent d o id pin := by
  cases published : o.value? id pin with
  | some v => simp [Silent, published, output_of_published published]
  | none =>
    simp only [Silent, published, reduceCtorEq, true_and, false_or]
    cases found : d.node? id with
    | none =>
      have missing : ¬ ProducesData d.nodes id := by
        rintro ⟨n, mem, same, _⟩
        cases found.symm.trans (valid.node?_eq_some_iff.2 ⟨mem, same⟩)
      simp [missing, output, depthOf, outputAt, published, found]
    | some n =>
      have produces : ProducesData d.nodes id ↔ n.kind.produces?.isSome = true := by
        constructor
        · rintro ⟨m, mem, same, data⟩
          cases found.symm.trans (valid.node?_eq_some_iff.2 ⟨mem, same⟩)
          rwa [NodeKind.isSome_produces?]
        · intro data
          obtain ⟨mem, same⟩ := valid.node?_eq_some_iff.1 found
          exact ⟨n, mem, same, by rwa [← NodeKind.isSome_produces?]⟩
      have made := hasKind_output valid found published
      rw [produces]
      split at made
      · next kind some_kind => simp [some_kind, made.ne_null]
      · next no_kind => simp [no_kind, made]

theorem resolve_of_fed {id pin source sourcePin : String}
    (fed : d.dataSource id pin = some (source, sourcePin)) (kind : ValueKind) (fallback : Value) :
    resolve d o id pin kind fallback = received kind fallback (output d o source sourcePin) := by
  simp [resolve, inputWith, fed]

theorem received_of_ne_null {v : Value} (arrives : v ≠ .null) (kind : ValueKind)
    (fallback : Value) : received kind fallback v = v.coerce kind := by
  cases v <;> simp_all [received, Value.orElse]

theorem resolve_of_speaking (valid : d.Valid) {id pin source sourcePin : String}
    (fed : d.dataSource id pin = some (source, sourcePin)) (speaks : ¬ Silent d o source sourcePin)
    (kind : ValueKind) (fallback : Value) :
    resolve d o id pin kind fallback = (output d o source sourcePin).coerce kind := by
  rw [resolve_of_fed fed, received_of_ne_null (mt (output_eq_null_iff valid).1 speaks)]

theorem falls_back_iff (valid : d.Valid) {id pin source sourcePin : String}
    (fed : d.dataSource id pin = some (source, sourcePin)) :
    (∀ kind fallback, resolve d o id pin kind fallback = fallback.coerce kind) ↔
      Silent d o source sourcePin := by
  constructor
  · intro falls
    by_contra speaks
    have yes := falls .bool (.bool true)
    have no := falls .bool (.bool false)
    rw [resolve_of_speaking valid fed speaks] at yes no
    have same := yes.symm.trans no
    simp [Value.coerce, Value.toBool] at same
  · intro silent kind fallback
    rw [resolve_of_fed fed, (output_eq_null_iff valid).2 silent]
    rfl

theorem comparedKind_ne_bool (n : Node) : comparedKind n ≠ .bool := by
  unfold comparedKind
  split <;> simp

theorem compareValues_of_hasKind {kind : ValueKind} (comparable : kind ≠ .bool) {v w : Value}
    (first : Value.HasKind kind v) (second : Value.HasKind kind w) (operator : String) :
    (∃ a b, v = .number a ∧ w = .number b ∧
      compareValues operator v w = compareNumbers operator a b) ∨
    ∃ a b, v = .text a ∧ w = .text b ∧ compareValues operator v w = compareTexts operator a b := by
  cases first with
  | number =>
    cases second
    exact .inl ⟨_, _, rfl, rfl, rfl⟩
  | text =>
    cases second
    exact .inr ⟨_, _, rfl, rfl, rfl⟩
  | bool => exact absurd rfl comparable

/-- In a document, whatever is stored on its nodes and whatever is published, a data-only node
produces a value of its own kind where nothing is published in its place, and an input has the kind
that is asked for; numbers are finite. So a comparison has two numbers or two texts before it, and an
input that is fed takes its fallback exactly when null is published at its source, or nothing is and
the source is not data-only. -/
theorem evaluation_is_sound (valid : d.Valid) (o : Outputs) :
    (∀ n ∈ d.nodes, n.kind.isDataOnly = true → ∀ pin, o.value? n.id pin = none →
      ∃ kind, n.kind.produces? = some kind ∧ Value.HasKind kind (output d o n.id pin)) ∧
    (∀ id pin kind fallback, Value.HasKind kind (resolve d o id pin kind fallback)) ∧
    (∀ n ∈ d.nodes, n.kind = .compare → ∀ pin, o.value? n.id pin = none →
      let operand := fun side => input d o n side (comparedKind n) (zeroOf (comparedKind n))
      let operator := n.option "Operator" "=="
      (∃ a b, operand "A" = .number a ∧ operand "B" = .number b ∧
        output d o n.id pin = .bool (compareNumbers operator a b)) ∨
      ∃ a b, operand "A" = .text a ∧ operand "B" = .text b ∧
        output d o n.id pin = .bool (compareTexts operator a b)) ∧
    ∀ id pin source sourcePin, d.dataSource id pin = some (source, sourcePin) →
      ((∀ kind fallback, resolve d o id pin kind fallback = fallback.coerce kind) ↔
        Silent d o source sourcePin) ∧
      (¬ Silent d o source sourcePin → ∀ kind fallback,
        resolve d o id pin kind fallback = (output d o source sourcePin).coerce kind) := by
  refine ⟨?produced, hasKind_resolve d o, ?compared, ?fed⟩
  case produced =>
    intro n mem data pin unpublished
    have found := valid.node?_eq_some_iff.2 ⟨mem, rfl⟩
    rw [← NodeKind.isSome_produces?] at data
    obtain ⟨kind, own⟩ := Option.isSome_iff_exists.1 data
    have made := hasKind_output valid found unpublished
    rw [own] at made
    exact ⟨kind, own, made⟩
  case compared =>
    intro n mem kind pin unpublished operand operator
    have found := valid.node?_eq_some_iff.2 ⟨mem, rfl⟩
    have operands : ∀ side, Value.HasKind (comparedKind n) (operand side) :=
      fun side => hasKind_resolve d o n.id side _ _
    rw [output_compare valid found kind unpublished]
    rcases compareValues_of_hasKind (comparedKind_ne_bool n) (operands "A") (operands "B") operator
      with ⟨a, b, first, second, compares⟩ | ⟨a, b, first, second, compares⟩
    · exact .inl ⟨a, b, first, second, congrArg Value.bool compares⟩
    · exact .inr ⟨a, b, first, second, congrArg Value.bool compares⟩
  case fed =>
    intro id pin source sourcePin fed
    exact ⟨falls_back_iff valid fed, fun speaks => resolve_of_speaking valid fed speaks⟩

def overflowing : Document where
  serial := 0
  nodes := [⟨"s", .start, []⟩, ⟨"l", .loop, []⟩, ⟨"n", .numberLiteral, [("value", .text "1e308")]⟩,
    ⟨"m", .math, [("Operator", .text "multiply")]⟩,
    ⟨"c", .compare, [("Type", .text "string"), ("B", .text "0")]⟩]
  connections := [⟨"s", Pin.exec, "l", Pin.exec, .exec⟩, ⟨"n", "Value", "m", "A", .data⟩,
    ⟨"n", "Value", "m", "B", .data⟩, ⟨"m", "Result", "c", "A", .data⟩,
    ⟨"l", Pin.index, "c", "B", .data⟩]
  start := "s"
  index := {
    exec := [(("s", Pin.exec), "l")]
    data := [(("m", "A"), ("n", "Value")), (("m", "B"), ("n", "Value")),
      (("c", "A"), ("m", "Result")), (("c", "B"), ("l", Pin.index))] }

/-- The product is a finite number all the same, and outside of the loop the comparison has its
stored text before it. -/
theorem overflowing_result :
    overflowing.Valid ∧ Value.HasKind .number (output overflowing [] "m" "Result") ∧
      (∀ kind fallback, resolve overflowing [] "c" "B" kind fallback = fallback.coerce kind) ∧
      output overflowing [] "m" "Result" = .number .zero ∧
      output overflowing [] "c" "Result" = .bool true := by
  have valid : overflowing.Valid := rfl
  obtain ⟨produced, _, _, fed⟩ := evaluation_is_sound valid []
  refine ⟨valid, ?product, ?index, by decide +kernel, by decide +kernel⟩
  case product =>
    obtain ⟨kind, own, sound⟩ := produced ⟨"m", .math, [("Operator", .text "multiply")]⟩
      (by decide) rfl "Result" rfl
    cases own
    exact sound
  case index =>
    apply (fed "c" "B" "l" Pin.index rfl).1.2
    refine .inr ⟨rfl, ?_⟩
    rw [← Document.isDataOnly_iff (Document.valid_iff.1 valid).1.distinct]
    decide

end Evaluation
end MacroGraph
