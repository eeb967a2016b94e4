import MacroGraph.Proofs.Duration
import MacroGraph.Proofs.Engine.Interruption

namespace MacroGraph

/-- The seconds that an action is asked to take. -/
def Action.seconds? : Action → Option Binary64
  | .move _ _ x | .type _ x | .sleep x => some x
  | _ => none

/-- A field of a node that holds an amount of time, and what counts when it holds none. -/
structure TimeField where
  field : String
  amount : Binary64
  unit : String

/-- The field for the time that an action of a node takes. -/
def NodeKind.timeField? : NodeKind → Option TimeField
  | .mouseMove => some ⟨"Duration", Engine.Machine.quarter, "seconds"⟩
  | .typeString => some ⟨"Delay", .ofNat 50, "milliseconds"⟩
  | _ => none

namespace Engine
variable {d : Document} {t : Timing}

def TooLong (d : Document) (o : Outputs) (n : Node) (f : TimeField) : Prop :=
  n.option "Unit" f.unit ∈ Duration.minutes ∧
    Duration.mostMinutes.lt (Evaluation.number d o n f.field f.amount) = true

namespace Machine

theorem span_cases (d : Document) (o : Outputs) (n : Node) (f : TimeField) :
    let x := span n (Evaluation.number d o n f.field f.amount) f.unit
    ¬ TooLong d o n f ∧ x.isFinite = true ∨ TooLong d o n f ∧ x = .infinity false := by
  intro x
  have finite : (Evaluation.number d o n f.field f.amount).isFinite = true :=
    Value.isFinite_toNumber _
  rcases Duration.clampBelow_inSeconds finite (n.option "Unit" f.unit) with
    ⟨seconds, few⟩ | ⟨beyond, many⟩
  · exact .inl ⟨few, seconds⟩
  · exact .inr ⟨many, beyond⟩

/-- An action that takes time is asked for with the time span that its node holds. -/
theorem seconds_of_execution {o : Outputs} {n l : Node} {a : Action} {next : Point}
    (asks : (execution d o n).point = .request l a next) {x : Binary64}
    (takes : a.seconds? = some x) :
    ∃ f, n.kind.timeField? = some f ∧
      x = span n (Evaluation.number d o n f.field f.amount) f.unit := by
  cases kind : n.kind with
  | mouseMove | typeString =>
    simp only [execution, kind, acting, Point.request.injEq] at asks
    obtain ⟨_, rfl, _⟩ := asks
    simp only [Action.seconds?, Option.some.injEq] at takes
    refine ⟨_, rfl, ?_⟩
    -- The field is read off first, or else its default amount would be worked out here.
    dsimp only
    exact takes.symm
  | mouseClick =>
    simp only [execution, kind, acting, Point.request.injEq] at asks
    obtain ⟨_, rfl, _⟩ := asks
    cases takes
  | keyPress =>
    simp only [execution, kind, pressing] at asks
    split at asks <;> cases asks <;> cases takes
  | _ => simp [execution, kind] at asks


end Machine

/-- What is left of a wait is a length of time. -/
def Point.Short : Point → Prop
  | .wait _ remaining _ => remaining.nanoseconds ≤ Duration.longest.nanoseconds
  | .request _ _ next => next.Short
  | _ => True

namespace Machine

/-- Waits are lengths of time, and what is asked for is a part of one, or it is what executing a node
under the same published values asks for. -/
structure Timed (d : Document) (m : Machine) : Prop where
  short : m.point.Short
  asks : ∀ n a next, m.point = .request n a next →
    (∃ slice : Duration, slice.nanoseconds ≤ Duration.longest.nanoseconds ∧
      a = .sleep slice.toSeconds) ∨
    (execution d m.outputs n).point = .request n a next

theorem short_execution (d : Document) (o : Outputs) (n : Node) :
    (execution d o n).point.Short := by
  cases kind : n.kind with
  | delay =>
    simp only [execution, kind]
    exact Duration.ofSeconds_le_longest _
  | keyPress =>
    simp only [execution, kind, pressing]
    split <;> trivial
  | _ =>
    simp only [execution, kind]
    trivial

theorem Timed.of_other {m : Machine} (short : m.point.Short)
    (silent : ∀ n a next, m.point ≠ .request n a next) : m.Timed d :=
  ⟨short, fun n a next here => absurd here (silent n a next)⟩

theorem Moves.timed (settable : t.pause.nanoseconds ≤ Duration.longest.nanoseconds)
    {running : Bool} {m after : Machine} {notes : List Note}
    (moves : Moves d t running m after notes) (timed : m.Timed d) : after.Timed d := by
  cases moves with
  | executes n here up =>
    obtain ⟨point, _, outputs⟩ := executed_eq d m n
    refine ⟨point ▸ short_execution d m.outputs n, ?_⟩
    intro l a next asks
    right
    rw [point] at asks
    have executes := executes_execution d m.outputs n
    rw [asks] at executes
    cases executes
    have bounded : n.kind ≠ .loop := by
      intro kind
      simp [execution, kind] at asks
    rw [outputs, if_neg bounded]
    exact asks
  | sleeps n remaining pause here up more =>
    have left := timed.short
    rw [here] at left
    have slice : min remaining.nanoseconds t.poll.nanoseconds ≤ remaining.nanoseconds :=
      Nat.min_le_left _ _
    refine ⟨Nat.le_trans (Nat.sub_le _ _) left, ?_⟩
    intro l a next asks
    cases asks
    exact .inl ⟨_, Nat.le_trans slice left, rfl⟩
  | pauses n here empty again up found => exact .of_other settable (by simp [goto])
  | wakes n remaining pause here halted =>
    cases pause <;> exact .of_other trivial (by simp [goto, afterWait])
  | _ => exact .of_other trivial (by simp [goto])

theorem Goes.timed (settable : t.pause.nanoseconds ≤ Duration.longest.nanoseconds)
    {m after : Machine} (goes : Goes d t m after) (fits : m.Fits d) (timed : m.Timed d) :
    after.Timed d := by
  cases goes with
  | moves moves => exact moves.timed settable timed
  | notified demand =>
    unfold Machine.notified
    cases here : m.point with
    | clear | enter n | finish fault => exact .of_other trivial (by simp [goto])
    | _ => exact timed
  | answered answer demand =>
    obtain ⟨n, next, here⟩ := request_of_demand demand
    have short := timed.short
    rw [here] at short
    cases answer with
    | ok _ =>
      have goes : m.answered (.ok ()) = m.goto next := by simp [Machine.answered, here]
      have after := fits.answered_ok demand
      rw [goes] at after ⊢
      refine .of_other short ?_
      rcases after with ⟨l, pin, there⟩ | ⟨l, remaining, pause, there⟩ <;> simp [there]
    | error cause =>
      have goes : m.answered (.error cause) =
          m.goto (.finish (some ⟨n.id, n.kind.typeName, cause⟩)) := by simp [Machine.answered, here]
      rw [goes]
      exact .of_other trivial (by simp [goto])
  | stays => exact timed

theorem Timed.seconds {m : Machine} (timed : m.Timed d) (fits : m.Fits d) (valid : d.Valid)
    {a : Action} (demand : m.demand = .act a) {x : Binary64} (takes : a.seconds? = some x) :
    x.isNegative = false ∧
      ((∃ y, a = .sleep y) ∧ x.isFinite = true ∨
        ∃ n ∈ d.nodes, ∃ f, n.kind.timeField? = some f ∧
          m.point = .request n a (.leave n (some Pin.exec)) ∧
          (¬ TooLong d m.outputs n f ∧ x.isFinite = true ∨
            TooLong d m.outputs n f ∧ x = .infinity false)) := by
  obtain ⟨n, next, here⟩ := request_of_demand demand
  rcases timed.asks n a next here with ⟨slice, short, rfl⟩ | asks
  · cases takes
    obtain ⟨rank, bounded, seconds⟩ := Duration.toSeconds_finite short
    rw [seconds]
    exact ⟨rfl, .inl ⟨⟨_, rfl⟩, rfl⟩⟩
  · have executes := executes_execution d m.outputs n
    rw [asks] at executes
    cases executes
    have point := fits.point
    rw [here] at point
    obtain ⟨mem, _⟩ := valid.node?_eq_some_iff.1 point.1
    obtain ⟨f, field, span⟩ := seconds_of_execution asks takes
    rw [span]
    exact ⟨Binary64.isNegative_clampBelow _,
      .inr ⟨n, mem, f, field, here, span_cases d m.outputs n f⟩⟩

end Machine

/-- In every run of a document, whatever the world does and whenever the flag is lowered, no action is
asked for with a negative number of seconds, and sleeps are asked for with finite ones. So are the
actions of nodes that move the pointer or type, except where the amount of time of such a node is
finite in minutes and has no finite number of seconds: there the action is asked for with an infinite
time. -/
theorem spans_finite_but_for_minutes {σ : Type} (host : Host σ) (lowers : Nat → Bool)
    (valid : d.Valid) (t : Timing) (settable : t.repeatPause < 1 <<< 64) (level : Option Log.Level)
    (running : Bool) (world : σ) :
    let run := (Run.begin d t level running world).interrupted host lowers
    let machine := fun k => (run k).worker.machine
    ∀ k a x, (run k).event? = some (.action a) → a.seconds? = some x →
      x.isNegative = false ∧
      ((∃ y, a = .sleep y) ∧ x.isFinite = true ∨
        ∃ n ∈ d.nodes, ∃ f, n.kind.timeField? = some f ∧
          (machine k).point = .request n a (.leave n (some Pin.exec)) ∧
          (¬ TooLong d (machine k).outputs n f ∧ x.isFinite = true ∨
            TooLong d (machine k).outputs n f ∧ x = .infinity false)) := by
  intro run machine k a x event takes
  have pause : t.pause.nanoseconds ≤ Duration.longest.nanoseconds := by
    have most : (1 <<< 64 - 1) * 1000000 ≤ (1 <<< 64) * Duration.perSecond - 1 := by decide
    exact Nat.le_trans (Nat.mul_le_mul_right _ (Nat.le_sub_one_of_lt settable)) most
  have first : ({} : Machine).Fits d ∧ ({} : Machine).Timed d :=
    ⟨⟨rfl, rfl⟩, .of_other trivial (by simp)⟩
  obtain ⟨fits, timed⟩ := Run.keeps_interrupted (r := Run.begin d t level running world) rfl rfl host
    lowers (fun m => m.Fits d ∧ m.Timed d)
    (fun goes kept => ⟨goes.fits valid kept.1, goes.timed pause kept.1 kept.2⟩) first k
  exact timed.seconds fits valid (Run.demand_of_event? event) takes

def unhurried : Document where
  serial := 0
  nodes := [⟨"s", .start, []⟩, ⟨"m", .mouseMove,
    [("Duration", .number (.ofDecimal false 1 308)), ("Unit", .text "minutes")]⟩]
  connections := [⟨"s", Pin.exec, "m", Pin.exec, .exec⟩]
  start := "s"
  index := { exec := [(("s", Pin.exec), "m")] }

/-- The movement is asked for with an infinite time, as its finite amount is too many minutes. When
somebody lowers the flag just before, it is asked for all the same. -/
theorem unhurried_moves :
    let run := (Run.begin unhurried {} none true ()).interrupted willing fun k => k == 10
    unhurried.Valid ∧ (run 11).worker.running = false ∧
      (run 11).event? = some (.action (.move 0 0 (.infinity false))) ∧
      ∃ n ∈ unhurried.nodes, ∃ f, n.kind.timeField? = some f ∧
        TooLong unhurried (run 11).worker.machine.outputs n f := by
  intro run
  have valid : unhurried.Valid := rfl
  have event : (run 11).event? = some (.action (.move 0 0 (.infinity false))) := by decide +kernel
  refine ⟨valid, by decide +kernel, event, ?_⟩
  obtain ⟨_, ⟨⟨y, sleeps⟩, _⟩ | ⟨n, mem, f, field, _, ⟨_, finite⟩ | ⟨long, _⟩⟩⟩ :=
    spans_finite_but_for_minutes willing (fun k => k == 10) valid {} (by decide) none true () 11 _ _
      event rfl
  · cases sleeps
  · cases finite
  · exact ⟨n, mem, f, field, long⟩

end Engine
end MacroGraph
