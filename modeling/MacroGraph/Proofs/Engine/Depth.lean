import Mathlib.Data.List.Perm.Subperm
import MacroGraph.Proofs.Engine.Nesting

namespace MacroGraph

def Document.bodiedLoops (d : Document) : List Node :=
  d.nodes.filter fun n => n.kind.isLoop && (d.nextExec n.id Pin.loopBody).isSome

namespace Engine
variable {d : Document}

namespace Nested
variable {id : String} {stack : List Frame}

theorem distinct (valid : d.Valid) (nested : Nested d id stack) :
    (stack.map fun f => f.node.id).Nodup := by
  induction stack generalizing id with
  | nil => exact List.nodup_nil
  | cons top rest ih =>
    obtain ⟨_, _, below⟩ := nested
    rw [List.map_cons, List.nodup_cons]
    refine ⟨?_, ih below⟩
    intro again
    obtain ⟨f, mem, same⟩ := List.mem_map.1 again
    exact below.apart valid mem same

theorem bodied (valid : d.Valid) (nested : Nested d id stack) {f : Frame} (mem : f ∈ stack) :
    f.node ∈ d.bodiedLoops := by
  obtain ⟨fits, body, next, _⟩ := nested.path valid mem
  obtain ⟨found, loop⟩ := fits.isLoop
  refine List.mem_filter.2 ⟨(valid.node?_eq_some_iff.1 found).1, ?_⟩
  rw [loop, next]
  rfl

theorem length_le (valid : d.Valid) (nested : Nested d id stack) :
    stack.length ≤ d.bodiedLoops.length := by
  have distinct : (stack.map Frame.node).Nodup := by
    apply List.Nodup.of_map Node.id
    rw [List.map_map]
    exact nested.distinct valid
  have bodied : stack.map Frame.node ⊆ d.bodiedLoops := by
    intro n mem
    obtain ⟨f, below, rfl⟩ := List.mem_map.1 mem
    exact nested.bodied valid below
  simpa using (distinct.subperm bodied).length_le

end Nested

namespace Machine

/-- The walks that are under way: the outermost one, and one in the body of each loop of the
stack. -/
def depth (m : Machine) : Nat := 1 + m.stack.length

structure NestsApart (d : Document) (m : Machine) : Prop where
  distinct : (m.stack.map fun f => f.node.id).Nodup
  bodied : ∀ f ∈ m.stack, f.node ∈ d.bodiedLoops
  unentered : ∀ n, m.point.beginning? = some n → ∀ f ∈ m.stack, f.node.id ≠ n.id
  depth_le : m.depth ≤ 1 + d.bodiedLoops.length

theorem Fits.nested_beginning {m : Machine} (fits : m.Fits d) {n : Node}
    (begins : m.point.beginning? = some n) : Nested d n.id m.stack := by
  have point := fits.point
  cases here : m.point with
  | execute l =>
    rw [here] at begins point
    cases begins
    exact point.2
  | iterate l next total =>
    rw [here] at begins point
    cases begins
    exact point.2.2.2
  | check l next =>
    rw [here] at begins point
    cases begins
    exact point.2.2
  | _ =>
    rw [here] at begins
    cases begins

theorem Fits.nestsApart (valid : d.Valid) {m : Machine} (fits : m.Fits d) : m.NestsApart d := by
  obtain ⟨id, nested⟩ := fits.point.nested
  refine ⟨nested.distinct valid, fun f => nested.bodied valid, ?_, ?_⟩
  · intro n begins f mem
    exact (fits.nested_beginning begins).apart valid mem
  · exact Nat.add_le_add_left (nested.length_le valid) 1

/-- A machine that a run can come to, whatever the world answers and whenever the flag is
lowered. -/
def Reached (d : Document) (t : Timing) : Machine → Prop := Relation.ReflTransGen (Goes d t) {}

theorem Reached.fits (valid : d.Valid) {t : Timing} {m : Machine} (reached : m.Reached d t) :
    m.Fits d := by
  induction reached with
  | refl => exact ⟨rfl, rfl⟩
  | tail _ goes ih => exact goes.fits valid ih

end Machine

/-- Wherever a run of a document comes to, the loops whose bodies are being walked are pairwise
distinct, whatever the world answers and whenever the flag is lowered. So walks are never nested
deeper than one and the number of loops with a body, wherever exec connections lead. -/
theorem bodies_nest_apart (valid : d.Valid) (t : Timing) :
    (∀ m, Machine.Reached d t m → m.NestsApart d) ∧
      ∀ {σ : Type} (host : Host σ) (level : Option Log.Level) (running : Bool) (world : σ) (n : Nat),
        Machine.Reached d t
          ((Run.begin d t level running world).steps host n).worker.machine := by
  refine ⟨fun m reached => (reached.fits valid).nestsApart valid, ?_⟩
  intro σ host level running world n
  exact (Run.steps_keeps host (Machine.Reached d t) (fun goes reached => reached.tail goes)
    (r := Run.begin d t level running world) rfl rfl .refl n).2.2

/-- A loop in a while loop. The inner loop leads back to itself when it is done, and so does the
click after the while loop. -/
def tower : Document where
  serial := 0
  nodes := [⟨"s", .start, []⟩, ⟨"w", .whileLoop, [("Condition", .bool true)]⟩,
    ⟨"l", .loop, [("Iterations", .number (.ofNat 2))]⟩, ⟨"c", .mouseClick, []⟩,
    ⟨"e", .mouseClick, []⟩]
  connections := [⟨"s", Pin.exec, "w", Pin.exec, .exec⟩, ⟨"w", Pin.loopBody, "l", Pin.exec, .exec⟩,
    ⟨"l", Pin.loopBody, "c", Pin.exec, .exec⟩, ⟨"l", Pin.completed, "l", Pin.exec, .exec⟩,
    ⟨"w", Pin.completed, "e", Pin.exec, .exec⟩, ⟨"e", Pin.exec, "e", Pin.exec, .exec⟩]
  start := "s"
  index := { exec := [(("s", Pin.exec), "w"), (("w", Pin.loopBody), "l"),
    (("l", Pin.loopBody), "c"), (("l", Pin.completed), "l"), (("w", Pin.completed), "e"),
    (("e", Pin.exec), "e")] }

/-- In the click that follows when the inner loop was entered again, as many walks are nested as can
be. -/
theorem tower_nests_to_bound :
    let click := ((Run.begin tower {} none true ()).steps willing 36).worker.machine
    tower.Valid ∧ click.stack.map (fun f => f.node.id) = ["l", "w"] ∧
      click.depth = 1 + tower.bodiedLoops.length ∧ click.NestsApart tower := by
  intro click
  have valid : tower.Valid := rfl
  obtain ⟨apart, reached⟩ := bodies_nest_apart valid {}
  exact ⟨valid, by decide +kernel, by decide +kernel,
    apart click (reached willing none true () 36)⟩

end Engine
end MacroGraph
